import EffectLisp.Main
import EffectLisp.Proofs.Config.Load
import EffectLisp.Proofs.Context.Scoping
import EffectLisp.Proofs.Datum.Display
import EffectLisp.Proofs.Datum.Scan
import EffectLisp.Proofs.Datum.Spelling
import EffectLisp.Proofs.Datum.Symbol
import EffectLisp.Proofs.Eval.Arguments
import EffectLisp.Proofs.Eval.Let
import EffectLisp.Proofs.Eval.NewName
import EffectLisp.Proofs.Eval.Watch
import EffectLisp.Proofs.Repl.Conversation
import EffectLisp.Proofs.Session.Files
import EffectLisp.Proofs.Session.Let
import EffectLisp.Proofs.Session.Inlining
import EffectLisp.Proofs.Session.Internal
import EffectLisp.Proofs.Session.Loading
import EffectLisp.Proofs.Session.Saved
import EffectLisp.Proofs.Token.Literal
