import RenderVerdict.Main
import RenderVerdict.Proofs.Command.Agreement
import RenderVerdict.Proofs.Command.Verdict
import RenderVerdict.Proofs.Image.Bounds
import RenderVerdict.Proofs.Image.Reflexivity
import RenderVerdict.Proofs.Scene.Blindness
import RenderVerdict.Proofs.Scene.Completeness
import RenderVerdict.Proofs.Scene.Faithfulness
import RenderVerdict.Proofs.Scene.Noise
import RenderVerdict.Proofs.Scene.NormalForm
import RenderVerdict.Proofs.Scene.Replacement
import RenderVerdict.Proofs.Scene.Surplus
import RenderVerdict.Proofs.Scene.Walk
import RenderVerdict.Tiff.Writer
import RenderVerdict.Proofs.Scene.Admission
import RenderVerdict.Proofs.Command.Frames
import RenderVerdict.Proofs.Command.Grammar
import RenderVerdict.Proofs.Image.Interleaving
