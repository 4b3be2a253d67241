import ModelBundle.Main
import ModelBundle.Proofs.Arguments
import ModelBundle.Proofs.Commands.Layers
import ModelBundle.Proofs.Commands.Loading
import ModelBundle.Proofs.Commands.Settings
import ModelBundle.Proofs.Containers
import ModelBundle.Proofs.Documents.Partial
import ModelBundle.Proofs.Embedding.Accepting
import ModelBundle.Proofs.Embedding.Delivery
import ModelBundle.Proofs.Embedding.Described
import ModelBundle.Proofs.Embedding.Inputs
import ModelBundle.Proofs.Embedding.Progress
import ModelBundle.Proofs.Embedding.Published
import ModelBundle.Proofs.Embedding.RoundTrip
import ModelBundle.Proofs.Handling
import ModelBundle.Proofs.Image.Coverage
import ModelBundle.Proofs.Image.Maximum
import ModelBundle.Proofs.Inspecting
import ModelBundle.Proofs.Loading.Course
import ModelBundle.Proofs.Loading.Outcome
import ModelBundle.Proofs.Loading.Replaced
import ModelBundle.Proofs.Loading.Sized
import ModelBundle.Proofs.Loading.Strategy
import ModelBundle.Proofs.Numbers.Texts
import ModelBundle.Proofs.Paths
import ModelBundle.Proofs.Requests
import ModelBundle.Proofs.Sessions.Engines
import ModelBundle.Proofs.Sessions.HandOff
import ModelBundle.Proofs.Sessions.Release
import ModelBundle.Proofs.Trailers
import ModelBundle.Session
