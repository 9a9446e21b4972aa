/-
# Dead keys against printable accents

A layout may send an accent as its printable character or as a dead key. Two
runs of the compose state that differ only in that choice agree step by step as
long as no press where they differ meets a held accent. There the two forms part:
the printable one completes the sequence with both literals, the dead one is left
to the application while the accent stays held.
-/

import SilentCompose.Compose.Composer

namespace SilentCompose.Analysis

open SilentCompose.Foundations SilentCompose.Toolkit SilentCompose.Compose

namespace PairedKey

end PairedKey

end SilentCompose.Analysis
