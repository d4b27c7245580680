import Stowage.Container.Builder
import Stowage.Files.Containment
import Stowage.Hosted.Driving
import Stowage.Launch.Native
import Stowage.Launch.Rehearsal
import Stowage.Main
import Stowage.Zlib.Compress
import Stowage.Proofs.Container.Format
import Stowage.Proofs.Container.RoundTrip
import Stowage.Proofs.Unpack.Links
import Stowage.Proofs.Launch.LifeCycle
import Stowage.Proofs.Launch.Traces
import Stowage.Proofs.Launch.Copy
import Stowage.Proofs.Launch.Inheritance
import Stowage.Proofs.Unpack.Strict
import Stowage.Proofs.Unpack.Building
import Stowage.Proofs.Unpack.Bounds
import Stowage.Proofs.Unpack.Resolving
import Stowage.Proofs.Inspect.Lookup
import Stowage.Proofs.Container.Cuts
import Stowage.Proofs.Container.Cursor
import Stowage.Proofs.Launch.SideLoad
import Stowage.Proofs.Hosted.Session
import Stowage.Proofs.Hosted.Starting
import Stowage.Proofs.Hosted.References
import Stowage.Proofs.Hosted.Discipline
import Stowage.Proofs.Hosted.Protocol
import Stowage.Proofs.Unpack.Pooling
import Stowage.Proofs.Hosted.Configuring
import Stowage.Proofs.Inspect.Export
import Stowage.Proofs.Launch.SearchPath
import Stowage.Proofs.Container.Cookies
import Stowage.Proofs.Hosted.Counting
import Stowage.Proofs.Path.Normal
import Stowage.Proofs.Environment.Fallback
import Stowage.Proofs.Files.Verdict
