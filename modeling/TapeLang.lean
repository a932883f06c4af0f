import TapeLang.Machine.Exec
import TapeLang.Main
import TapeLang.Program.Bare
import TapeLang.Program.Listing
import TapeLang.Proofs.Brackets
import TapeLang.Proofs.EmitMeaning
import TapeLang.Proofs.EndOfInput
import TapeLang.Proofs.EveryDepth
import TapeLang.Proofs.ExactClearing
import TapeLang.Proofs.FaultPlaces
import TapeLang.Proofs.FilesInOrder
import TapeLang.Proofs.Printing
import TapeLang.Proofs.SameCode
import TapeLang.Proofs.Seams
import TapeLang.Proofs.Sessions
import TapeLang.Proofs.StdoutFailures
import TapeLang.Streams.Scripted
import TapeLang.Proofs.Trails
import TapeLang.Proofs.Writing
import TapeLang.Proofs.CleanFailures
import TapeLang.Proofs.Spelling
import TapeLang.Proofs.NetChange
import TapeLang.Proofs.Nesting
import TapeLang.Proofs.ShorterSource
import TapeLang.Proofs.NoOps
import TapeLang.Proofs.Excerpts
import TapeLang.Proofs.Growths
import TapeLang.Proofs.TokenOrder
import TapeLang.Proofs.TreeMeasures
import TapeLang.Proofs.Dumps
import TapeLang.Proofs.CompactingFrames
import TapeLang.Proofs.CompactFailures
import TapeLang.Machine.Frames
import TapeLang.Proofs.RunningFrames
