import Narration.Main
import Narration.Proofs.Fingerprint
import Narration.Proofs.Generate.Batch
import Narration.Proofs.Markup.Braced
import Narration.Proofs.Markup.Determined
import Narration.Proofs.Markup.Forest
import Narration.Proofs.Markup.Sited
import Narration.Proofs.Player.LineEnds
import Narration.Proofs.Player.Relocated
import Narration.Proofs.Player.Renewed
import Narration.Proofs.Player.Undone
import Narration.Proofs.Reconcile.Branches
import Narration.Proofs.Reconcile.Players
import Narration.Proofs.Settings
import Narration.Proofs.Spoken.Bullets
import Narration.Proofs.Spoken.Paragraphs
import Narration.Proofs.Spoken.Quoted
import Narration.Proofs.Spoken.Recoded
import Narration.Proofs.Spoken.Spaced
import Narration.Proofs.Spoken.Voiced
import Narration.Proofs.Storage.Keys
import Narration.Proofs.Player.Updated
