import ModelBundle.Proofs.Loading.Embedded
import ModelBundle.Proofs.Trailers

/-!
Which files carry a payload.  Reading a trailer undoes writing it and takes sixteen bytes or none.
A trailer is found exactly in the contents that end in it and are as long as it says.  The lengths
are added up as numbers, so a sum that would wrap a word is no match.
-/

namespace ModelBundle

theorem Bytes.word_eq_iff {bytes : Bytes} (h : bytes.length = 8) (word : UInt64) :
    UInt64.ofNat (fromLittleEndian bytes) = word ↔ bytes = littleEndian 8 word.toNat := by
  have hsize : 256 ^ 8 = UInt64.size := rfl
  constructor
  · rintro rfl
    have hlt := fromLittleEndian_lt bytes
    rw [h, hsize] at hlt
    rw [UInt64.toNat_ofNat_of_lt' hlt, ← h, littleEndian_fromLittleEndian]
  · rintro rfl
    rw [fromLittleEndian_littleEndian, hsize, Nat.mod_eq_of_lt word.toNat_lt_size,
      UInt64.ofNat_toNat]

def Bytes.takeWord (bytes : Bytes) : Except Fault (UInt64 × Bytes) :=
  if bytes.length < 8 then .error .endOfInput
  else .ok (.ofNat (fromLittleEndian (bytes.take 8)), bytes.drop 8)

namespace Trailer

theorem length_encode (trailer : Trailer) : trailer.encode.length = width := by
  simp [encode, width]

theorem decode_eq_ok_iff {bytes rest : Bytes} {trailer : Trailer} :
    decode bytes = .ok (trailer, rest) ↔ bytes = trailer.encode ++ rest := by
  have hwidth : width = 8 + 8 := rfl
  unfold decode
  constructor
  · intro h
    split at h
    · cases h
    · rename_i hlong
      cases h
      have hfirst : (bytes.take 8).length = 8 := by simp; omega
      have hsecond : (Bytes.slice bytes 8 8).length = 8 := by simp; omega
      have hoffset := (Bytes.word_eq_iff hfirst _).mp rfl
      have hsize := (Bytes.word_eq_iff hsecond _).mp rfl
      rw [encode, ← hoffset, ← hsize, Bytes.slice, List.append_assoc, hwidth, ← List.drop_drop,
        List.take_append_drop, List.take_append_drop]
  · rintro rfl
    have hfirst : (trailer.encode ++ rest).take 8 = Bytes.littleEndian 8 trailer.offset.toNat := by
      rw [encode, List.append_assoc, List.take_left' (Bytes.length_littleEndian _ _)]
    have hsecond : Bytes.slice (trailer.encode ++ rest) 8 8 =
        Bytes.littleEndian 8 trailer.size.toNat := by
      rw [Bytes.slice, encode, List.append_assoc, List.drop_left' (Bytes.length_littleEndian _ _),
        List.take_left' (Bytes.length_littleEndian _ _)]
    have hlength := length_encode trailer
    rw [if_neg (by simp; omega), hfirst, hsecond, List.drop_left' hlength,
      (Bytes.word_eq_iff (Bytes.length_littleEndian _ _) _).mpr rfl,
      (Bytes.word_eq_iff (Bytes.length_littleEndian _ _) _).mpr rfl]

/-- The content ends in the trailer, and is exactly as long as the trailer says. -/
structure Ends (trailer : Trailer) (content : Bytes) : Prop where
  room : 16 ≤ content.length
  last : content.drop (content.length - 16) =
    Bytes.littleEndian 8 trailer.offset.toNat ++ Bytes.littleEndian 8 trailer.size.toNat
  front : 0 < trailer.offset.toNat
  payload : 0 < trailer.size.toNat
  total : trailer.offset.toNat + trailer.size.toNat + 16 = content.length

theorem decode_of_short {bytes : Bytes} (h : bytes.length < 16) :
    decode bytes = .error .endOfInput :=
  if_pos h

theorem exists_decode {bytes : Bytes} (h : 16 ≤ bytes.length) :
    ∃ trailer, decode bytes = .ok (trailer, bytes.drop 16) := by
  have hlong : ¬ bytes.length < width := Nat.not_lt.mpr h
  unfold decode
  rw [if_neg hlong]
  exact ⟨_, rfl⟩

theorem decode_eq_takeWord (bytes : Bytes) : decode bytes = do
    let (offset, rest) ← bytes.takeWord
    let (size, rest) ← rest.takeWord
    return (⟨offset, size⟩, rest) := by
  have hwidth : width = 8 + 8 := rfl
  unfold decode Bytes.takeWord
  by_cases hfirst : bytes.length < 8
  · rw [if_pos (by omega), if_pos hfirst]
    rfl
  · rw [if_neg hfirst]
    simp only [bind, Except.bind, List.length_drop]
    by_cases hsecond : bytes.length - 8 < 8
    · rw [if_pos (by omega), if_pos hsecond]
    · rw [if_neg (by omega), if_neg hsecond, List.drop_drop]
      rfl

theorem encode_injective {first second : Trailer} (h : first.encode = second.encode) :
    first = second := by
  have hfirst := decode_eq_ok_iff.mpr (List.append_nil first.encode).symm
  have hsecond := decode_eq_ok_iff.mpr (h.trans (List.append_nil second.encode).symm)
  exact congrArg Prod.fst (Except.ok.inj (hfirst.symm.trans hsecond))

/-! Reading the trailer of a content that is said to have some length. -/

theorem readLast_of_short (content : Bytes) {fileSize : Nat} (h : fileSize < 16) :
    readLast content fileSize = .ok none :=
  if_pos h

theorem readLast_of_inside {content : Bytes} {fileSize : Nat} (hroom : 16 ≤ fileSize)
    (hinside : fileSize ≤ content.length) :
    ∃ trailer, Bytes.slice content (fileSize - 16) 16 = trailer.encode ∧
      readLast content fileSize = .ok (some trailer) := by
  have hlong : 16 ≤ (content.drop (fileSize - 16)).length := by
    rw [List.length_drop]
    omega
  have hwidth : ¬ fileSize < width := Nat.not_lt.mpr hroom
  obtain ⟨trailer, hdecode⟩ := exists_decode hlong
  refine ⟨trailer, ?_, ?_⟩
  · rw [Bytes.slice, decode_eq_ok_iff.mp hdecode]
    exact List.take_left' (length_encode trailer)
  · rw [readLast, if_neg hwidth, show width = 16 from rfl, hdecode]

theorem readLast_of_behind {content : Bytes} {fileSize : Nat} (hroom : 16 ≤ fileSize)
    (hbehind : content.length < fileSize) : readLast content fileSize = .error .endOfInput := by
  have hleft : (content.drop (fileSize - 16)).length < 16 := by
    rw [List.length_drop]
    omega
  have hwidth : ¬ fileSize < width := Nat.not_lt.mpr hroom
  rw [readLast, if_neg hwidth, show width = 16 from rfl, decode_of_short hleft]

theorem readLast_eq_ok_some_iff {content : Bytes} {fileSize : Nat} {trailer : Trailer} :
    readLast content fileSize = .ok (some trailer) ↔
      16 ≤ fileSize ∧ fileSize ≤ content.length ∧
        Bytes.slice content (fileSize - 16) 16 = trailer.encode := by
  by_cases hroom : 16 ≤ fileSize
  · by_cases hinside : fileSize ≤ content.length
    · obtain ⟨found, hlast, hread⟩ := readLast_of_inside hroom hinside
      rw [hread, hlast]
      constructor
      · intro h
        cases h
        exact ⟨hroom, hinside, rfl⟩
      · rintro ⟨-, -, hencode⟩
        rw [encode_injective hencode]
    · rw [readLast_of_behind hroom (Nat.not_le.mp hinside)]
      exact iff_of_false (by simp) fun h => hinside h.2.1
  · rw [readLast_of_short content (Nat.not_le.mp hroom)]
    exact iff_of_false (by simp) fun h => hroom h.1

theorem readLast_eq_some_iff {content : Bytes} {trailer : Trailer} :
    readLast content content.length = .ok (some trailer) ↔
      16 ≤ content.length ∧ content.drop (content.length - 16) = trailer.encode := by
  rw [readLast_eq_ok_some_iff]
  refine and_congr_right fun hroom => ?_
  have hrest : (content.drop (content.length - 16)).length ≤ 16 := by
    rw [List.length_drop]
    omega
  rw [and_iff_right (Nat.le_refl _), Bytes.slice, List.take_of_length_le hrest]

/-- For all trailers and bytes: a trailer is written as sixteen bytes, which are read back as that
trailer with everything behind them left over; any sixteen bytes are what is written for the trailer
that is read from them; fewer cannot be read, also where the first of the two words is there.  For
all contents and all words as their length: there is no trailer exactly if the length leaves no room
for one; otherwise the sixteen bytes in front of that length are decoded, no others, and it is an
error if some of them are missing. -/
theorem decodes_exactly :
    (∀ (trailer : Trailer) (rest : Bytes), trailer.encode.length = 16 ∧
      decode (trailer.encode ++ rest) = .ok (trailer, rest)) ∧
    (∀ bytes : Bytes, bytes.length = 16 →
      ∃ trailer, decode bytes = .ok (trailer, []) ∧ trailer.encode = bytes) ∧
    (∀ bytes : Bytes, bytes.length < 16 → decode bytes = .error .endOfInput) ∧
    (∀ bytes : Bytes, decode bytes = do
      let (offset, rest) ← bytes.takeWord
      let (size, rest) ← rest.takeWord
      return (⟨offset, size⟩, rest)) ∧
    ∀ (content : Bytes) (fileSize : UInt64),
      let last := Bytes.slice content (fileSize.toNat - 16) 16
      (readLast content fileSize.toNat = .ok none ↔ fileSize.toNat < 16) ∧
      (16 ≤ fileSize.toNat → fileSize.toNat ≤ content.length →
        ∃ trailer, decode last = .ok (trailer, []) ∧
          readLast content fileSize.toNat = .ok (some trailer)) ∧
      (16 ≤ fileSize.toNat → content.length < fileSize.toNat →
        readLast content fileSize.toNat = .error .endOfInput) ∧
      ∀ trailer, readLast content fileSize.toNat = .ok (some trailer) ↔
        16 ≤ fileSize.toNat ∧ fileSize.toNat ≤ content.length ∧ last = trailer.encode := by
  have hwhole : ∀ trailer : Trailer, decode trailer.encode = .ok (trailer, []) := fun trailer =>
    decode_eq_ok_iff.mpr (List.append_nil _).symm
  refine ⟨fun trailer rest => ⟨length_encode trailer, decode_eq_ok_iff.mpr rfl⟩, ?_,
    fun bytes => decode_of_short, decode_eq_takeWord, ?_⟩
  · intro bytes hlength
    obtain ⟨trailer, hdecode⟩ := exists_decode (Nat.le_of_eq hlength.symm)
    have hrest : bytes.drop 16 = [] := List.drop_eq_nil_of_le (Nat.le_of_eq hlength)
    rw [hrest] at hdecode
    refine ⟨trailer, hdecode, ?_⟩
    rw [decode_eq_ok_iff.mp hdecode, List.append_nil]
  · intro content fileSize last
    refine ⟨⟨?_, readLast_of_short content⟩, ?_, readLast_of_behind,
      fun trailer => readLast_eq_ok_some_iff⟩
    · intro hnone
      by_contra hroom
      rcases Nat.lt_or_ge content.length fileSize.toNat with hbehind | hinside
      · cases hnone.symm.trans (readLast_of_behind (Nat.not_lt.mp hroom) hbehind)
      · obtain ⟨trailer, -, hread⟩ := readLast_of_inside (Nat.not_lt.mp hroom) hinside
        cases hnone.symm.trans hread
    · intro hroom hinside
      obtain ⟨trailer, hlast, hread⟩ := readLast_of_inside hroom hinside
      have hencode : last = trailer.encode := hlast
      exact ⟨trailer, hencode ▸ hwhole trailer, hread⟩

/-- A trailer with a byte in front and a byte behind: it is found for the length that leaves out the
last byte, and not for one byte more than there are. -/
theorem decodes_exactly_surrounded :
    let content : Bytes := [0x7f] ++ encode ⟨1, 4⟩ ++ [0x7f]
    (content.take 12).length < 16 ∧ decode (content.take 12) = .error .endOfInput ∧
      (List.replicate 16 0xff : Bytes).length = 16 ∧
      (∃ trailer : Trailer, trailer.encode = List.replicate 16 0xff) ∧
      (17 : UInt64).toNat ≤ content.length ∧ readLast content 17 = .ok (some ⟨1, 4⟩) ∧
      content.length < (19 : UInt64).toNat ∧ readLast content 19 = .error .endOfInput ∧
      readLast content 15 = .ok none := by
  intro content
  have hshort : (content.take 12).length < 16 := by decide
  have hlength : (List.replicate 16 0xff : Bytes).length = 16 := by decide
  have hinside : (17 : UInt64).toNat ≤ content.length := by decide
  have hbehind : content.length < (19 : UInt64).toNat := by decide
  obtain ⟨-, hsixteen, hfewer, -, hlast⟩ := decodes_exactly
  obtain ⟨trailer, -, hencode⟩ := hsixteen _ hlength
  obtain ⟨-, -, -, hfound⟩ := hlast content 17
  obtain ⟨-, -, hmissing, -⟩ := hlast content 19
  obtain ⟨hnone, -⟩ := hlast content 15
  exact ⟨hshort, hfewer _ hshort, hlength, ⟨trailer, hencode⟩, hinside,
    (hfound ⟨1, 4⟩).mpr ⟨by decide, hinside, by decide⟩, hbehind,
    hmissing (by decide) hbehind, hnone.mpr (by decide)⟩

theorem ending?_eq_some_iff {content : Bytes} {trailer : Trailer}
    (hlength : content.length < UInt64.size) :
    ending? content = some trailer ↔ trailer.Ends content := by
  constructor
  · intro h
    obtain ⟨hfront, hpayload, htotal, -⟩ := check_eq_ok_iff.mp (check_of_ending h)
    have hread : readLast content content.length = .ok (some trailer) := by
      unfold ending? at h
      split at h
      · rename_i found hread
        split at h
        · cases h
          exact hread
        · cases h
      · cases h
    obtain ⟨hroom, hlast⟩ := readLast_eq_some_iff.mp hread
    exact ⟨hroom, hlast, hfront, hpayload, htotal⟩
  · rintro ⟨hroom, hlast, hfront, hpayload, htotal⟩
    have hcheck := check_eq_ok_iff.mpr ⟨hfront, hpayload, htotal, hlength⟩
    simp only [ending?, readLast_eq_some_iff.mpr ⟨hroom, hlast⟩, hcheck]

theorem Ends.unique {first second : Trailer} {content : Bytes} (h : first.Ends content)
    (h' : second.Ends content) : first = second :=
  encode_injective (h.last.symm.trans h'.last)

theorem Ends.layout {trailer : Trailer} {content : Bytes} (ends : trailer.Ends content) :
    content = content.take trailer.offset.toNat ++
      Bytes.slice content trailer.offset.toNat trailer.size.toNat ++ trailer.encode := by
  have hlast : content.drop (trailer.offset.toNat + trailer.size.toNat) = trailer.encode := by
    rw [encode, ← ends.last]
    congr 1
    have := ends.total
    omega
  rw [← hlast, Bytes.slice, ← List.drop_drop, List.append_assoc, List.take_append_drop,
    List.take_append_drop]

theorem check_eq (trailer : Trailer) {fileSize : Nat} (h : fileSize < UInt64.size) :
    trailer.check fileSize =
      if 0 < trailer.offset.toNat ∧ 0 < trailer.size.toNat ∧
          trailer.offset.toNat + trailer.size.toNat + 16 = fileSize then .ok ()
      else .error (.sizeMismatch trailer.offset trailer.size fileSize) := by
  split
  case isTrue hfits => exact check_eq_ok_iff.mpr ⟨hfits.1, hfits.2.1, hfits.2.2, h⟩
  case isFalse hmisfit =>
    have hrefused : ¬ trailer.check fileSize = .ok () := fun hok => by
      obtain ⟨hfront, hpayload, htotal, -⟩ := check_eq_ok_iff.mp hok
      exact hmisfit ⟨hfront, hpayload, htotal⟩
    unfold check at hrefused ⊢
    split at hrefused
    · exact absurd rfl hrefused
    · rename_i hcondition
      rw [if_neg hcondition]

theorem locate_of_error {world : World} {path : Path} {fault : Fault}
    (h : world.files.openRead path = .error fault) :
    (locate path world).1 = .error (.ofOpen path fault) := by
  simp only [locate, h]

theorem locate_of_ok {world : World} {path : Path} {handle : Handle}
    (h : world.files.openRead path = .ok handle) : ∃ found, (locate path world).1 = .ok found := by
  simp only [locate, h]
  split
  · exact ⟨_, rfl⟩
  · exact ⟨_, rfl⟩
  · split <;> exact ⟨_, rfl⟩

/-- For all files and paths: looking for a trailer fails only where the path cannot be opened.  In a
regular file a trailer is found exactly if the file ends in it and is as long as it says; the
payload is then not empty and stands right before it.  The check on its own accepts exactly these
lengths, for all words. -/
theorem locate_iff_ends (world : World) (path : Path) :
    ((∃ error, (locate path world).1 = .error error) ↔
      ∃ fault, world.files.openRead path = .error fault) ∧
    (∀ handle content, world.files.openRead path = .ok handle →
      world.files.Regular handle content →
      (∀ trailer, (locate path world).1 = .ok (some trailer) ↔ trailer.Ends content) ∧
      ((∀ trailer : Trailer, ¬ trailer.Ends content) → (locate path world).1 = .ok none) ∧
      ∀ trailer, (locate path world).1 = .ok (some trailer) →
        let payload := Bytes.slice content trailer.offset.toNat trailer.size.toNat
        payload.length = trailer.size.toNat ∧ payload ≠ [] ∧
          content = content.take trailer.offset.toNat ++ payload ++ trailer.encode) ∧
    ∀ offset size fileSize : UInt64, check ⟨offset, size⟩ fileSize.toNat =
      if 0 < offset.toNat ∧ 0 < size.toNat ∧
          offset.toNat + size.toNat + 16 = fileSize.toNat then .ok ()
      else .error (.sizeMismatch offset size fileSize.toNat) := by
  refine ⟨?_, ?_, fun offset size fileSize => check_eq ⟨offset, size⟩ fileSize.toNat_lt_size⟩
  · constructor
    · rintro ⟨error, herror⟩
      cases hopen : world.files.openRead path with
      | error fault => exact ⟨fault, rfl⟩
      | ok handle =>
        obtain ⟨found, hfound⟩ := locate_of_ok hopen
        cases herror.symm.trans hfound
    · rintro ⟨fault, hopen⟩
      exact ⟨_, locate_of_error hopen⟩
  · intro handle content hopen regular
    have hlocate : (locate path world).1 = .ok (ending? content) := by
      rw [locate_fst, located_of_openRead hopen regular.opened]
    have hiff : ∀ trailer, (locate path world).1 = .ok (some trailer) ↔ trailer.Ends content := by
      intro trailer
      rw [hlocate, Except.ok.injEq, ending?_eq_some_iff regular.fits]
    refine ⟨hiff, ?_, ?_⟩
    · intro hnone
      rw [hlocate]
      cases hending : ending? content with
      | none => rfl
      | some trailer => exact absurd ((ending?_eq_some_iff regular.fits).mp hending) (hnone trailer)
    · intro trailer hfound
      have ends := (hiff trailer).mp hfound
      have hlength : (Bytes.slice content trailer.offset.toNat trailer.size.toNat).length =
          trailer.size.toNat := by
        have := ends.total
        rw [Bytes.length_slice]
        omega
      refine ⟨hlength, ?_, ends.layout⟩
      rw [← List.length_pos_iff, hlength]
      exact ends.payload

/-- The sum of the second trailer wraps to the file size, and the trailer is refused. -/
theorem locate_iff_ends_oneBundle :
    Loader.oneBundle.openRead "app" = .ok (.file 0) ∧
      Loader.oneBundle.Regular (.file 0) ([0x7f] ++ Magic.gguf ++ encode ⟨1, 4⟩) ∧
      (locate "app" (.ofFiles Loader.oneBundle)).1 = .ok (some ⟨1, 4⟩) ∧
      check ⟨18446744073709551615, 1⟩ 16 = .error (.sizeMismatch 18446744073709551615 1 16) := by
  have hopen : Loader.oneBundle.openRead "app" = .ok (.file 0) := rfl
  have hregular : Loader.oneBundle.Regular (.file 0)
      ([0x7f] ++ Magic.gguf ++ encode ⟨1, 4⟩) := ⟨rfl, by decide⟩
  obtain ⟨-, hfiles, hcheck⟩ := locate_iff_ends (.ofFiles Loader.oneBundle) "app"
  obtain ⟨hiff, -⟩ := hfiles _ _ hopen hregular
  have ends : Ends ⟨1, 4⟩ ([0x7f] ++ Magic.gguf ++ encode ⟨1, 4⟩) :=
    ⟨by decide, by decide, by decide, by decide, by decide⟩
  exact ⟨hopen, hregular, (hiff ⟨1, 4⟩).mpr ends, hcheck 18446744073709551615 1 16⟩

end Trailer

end ModelBundle
