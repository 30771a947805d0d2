import PeakLang.Host.Memory
import PeakLang.Main
import PeakLang.Proofs.Analysis.Justified
import PeakLang.Proofs.Analysis.Placement
import PeakLang.Proofs.Analysis.Renamed
import PeakLang.Proofs.Analysis.Unused
import PeakLang.Proofs.Compile.Constants
import PeakLang.Proofs.Compile.Layout
import PeakLang.Proofs.Diagnostic
import PeakLang.Proofs.Js.Compared
import PeakLang.Proofs.Js.Complete
import PeakLang.Proofs.Js.Occurrences
import PeakLang.Proofs.Js.Quoting
import PeakLang.Proofs.Scope.Stack
import PeakLang.Proofs.Token.Cover
import PeakLang.Proofs.Token.Quoted
import PeakLang.Proofs.Token.Separated
import PeakLang.Proofs.Tree.Parser.Derive
import PeakLang.Proofs.Tree.Parser.Order
import PeakLang.Proofs.Tree.Parser.Progress
import PeakLang.Proofs.Typed.Behaviour
import PeakLang.Proofs.Typed.Normal
