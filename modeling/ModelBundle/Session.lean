import ModelBundle.Loader

/-!
Sessions: loaders, engines, consumers of models and payloads of their own, each under a name, all
acting on one world.  Whoever holds a model has a handle on it; putting something under a name
that is in use lets go of what was there.
-/

namespace ModelBundle

structure Session where
  world : World
  payloads : Table String Payload
  consumers : Table String Nat
  loaders : Table String Loader
  engines : Table String Engine

namespace Session

def new : Session where
  world := .ofFiles .installed
  payloads := []
  consumers := []
  loaders := []
  engines := []

def onWorld {α : Type} (step : Action World α) (session : Session) : Except LoadError α × Session :=
  let (result, world) := step session.world
  (result, { session with world })

def onFiles (step : FileSystem → Except Fault FileSystem) (session : Session) :
    Except Fault Unit × Session :=
  match step session.world.files with
  | .ok files => (.ok (), { session with world := { session.world with files } })
  | .error fault => (.error fault, session)

/-! Payloads. -/

def payload? (session : Session) (name : String) : Option Payload :=
  Table.get? session.payloads name

def keepPayload (name : String) (payload : Payload) (session : Session) : Session :=
  let world := match session.payload? name with
    | some old => (old.release session.world).2
    | none => session.world
  { session with world, payloads := Table.set session.payloads name payload }

def bring (path : Path) (name : String) (step : Handle → Action World Payload)
    (session : Session) : Except LoadError Payload × Session :=
  match session.world.files.openRead path with
  | .error fault => (.error (.io fault), session)
  | .ok handle =>
    match session.onWorld (step handle) with
    | (.error error, session) => (.error error, session)
    | (.ok payload, session) => (.ok payload, session.keepPayload name payload)

def map (path : Path) (offset size : UInt64) (name : String) (page : Page := .usual) :
    Session → Except LoadError Payload × Session :=
  bring path name fun handle => do return .mapped (← Mapper.system page handle offset size)

def copy (path : Path) (offset size : UInt64) (name : String) :
    Session → Except LoadError Payload × Session :=
  bring path name fun handle => do return .buffered (← Buffer.read handle offset size)

def changePayload (name : String) (change : Payload → World → Payload × World)
    (session : Session) : Option (Payload × Session) :=
  (session.payload? name).map fun payload =>
    let (payload, world) := change payload session.world
    (payload, { session with world, payloads := Table.set session.payloads name payload })

def unmap (payload : Payload) (world : World) : Payload × World :=
  match payload with
  | .mapped region => (.mapped (region.release world).1, (region.release world).2)
  | .buffered buffer => (.buffered buffer, world)

def advise (pattern : AccessPattern) (payload : Payload) (world : World) : Payload × World :=
  match payload with
  | .mapped region => (.mapped (region.advise pattern world).1, (region.advise pattern world).2)
  | .buffered buffer => (.buffered buffer, world)

/-! Consumers. -/

structure Held where
  id : Nat
  handles : Nat
deriving DecidableEq, Repr

def consumer? (session : Session) (name : String) : Option Nat :=
  Table.get? session.consumers name

def held (session : Session) (id : Nat) : Held := ⟨id, session.world.handles id⟩

def drop (name : String) (session : Session) : Session :=
  match session.consumer? name with
  | none => session
  | some id =>
    { session with
      world := session.world.letGo id
      consumers := Table.erase session.consumers name }

def keep (name : String) (id : Nat) (session : Session) : Session :=
  let session := session.drop name
  { session with consumers := Table.set session.consumers name id }

/-- Another handle for another consumer; it is counted before that one lets go of anything. -/
def clone (name other : String) (session : Session) : Option (Held × Session) :=
  (session.consumer? name).map fun id =>
    let session := { session with world := session.world.retain id }
    (session.held id, session.keep other id)

/-- Gives the bytes of a consumer's model back early, which only the owner of the one handle on
it may do. -/
def releaseModel (name : String) (session : Session) : Option (Option (Held × Session)) :=
  (session.consumer? name).map fun id =>
    if session.world.handles id = 1 then
      let session := { session with world := session.world.releaseEarly id }
      some (session.held id, session)
    else none

/-! Loaders. -/

def loader? (session : Session) (name : String) : Option Loader :=
  Table.get? session.loaders name

def setLoader (name : String) (work : Loader.Work) (session : Session) : Session :=
  { session with world := work.1, loaders := Table.set session.loaders name work.2 }

def dropLoader (name : String) (session : Session) : Option Session :=
  (session.loader? name).map fun loader =>
    { session with
      world := Loader.drop (session.world, loader)
      loaders := Table.erase session.loaders name }

def newLoader (name : String) (settings : LoadSettings) (mapper : Mapper) (session : Session) :
    Session :=
  let session := (session.dropLoader name).getD session
  session.setLoader name (session.world, .new settings mapper)

/-- Loads a model.  The handle goes to a consumer if one is named, and is let go otherwise; what
is told about it is from before that. -/
def load (name : String) (exe : Option Path) (consumer : Option String) (session : Session) :
    Option (Except LoadError Held × Session) :=
  (session.loader? name).map fun loader =>
    let (result, work) := Loader.load exe (session.world, loader)
    let session := session.setLoader name work
    match result with
    | .error error => (.error error, session)
    | .ok id =>
      let held := session.held id
      match consumer with
      | some consumer => (.ok held, session.keep consumer id)
      | none => (.ok held, { session with world := session.world.letGo id })

def release (name : String) (session : Session) : Option Session :=
  (session.loader? name).map fun loader =>
    session.setLoader name (Loader.release (session.world, loader))

/-! Engines. -/

def engine? (session : Session) (name : String) : Option Engine :=
  Table.get? session.engines name

def setEngine (name : String) (state : World × Engine) (session : Session) : Session :=
  { session with world := state.1, engines := Table.set session.engines name state.2 }

/-- Hands a consumer's model to an engine, which is made if there is none of that name.  With
reasons given the engine refuses. -/
def handOff (consumer engine : String) (settings : EngineSettings)
    (reasons : Option (List String)) (session : Session) :
    Option (Except LoadError String × Held × Engine × Session) :=
  (session.consumer? consumer).map fun id =>
    let (result, state) := ModelBundle.handOff (Engine.answer reasons) id settings
      (session.world, (session.engine? engine).getD .idle)
    let session := session.setEngine engine state
    (result, session.held id, state.2, session)

def stopEngine (name : String) (session : Session) : Option Session :=
  (session.engine? name).map fun engine =>
    session.setEngine name (Engine.stop (session.world, engine))

end Session

end ModelBundle
