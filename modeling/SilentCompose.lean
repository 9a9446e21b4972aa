import SilentCompose.Analysis.AltGrSymbols
import SilentCompose.Analysis.AltGrTracking
import SilentCompose.Analysis.Chords
import SilentCompose.Analysis.CommitTexts
import SilentCompose.Analysis.Conservation
import SilentCompose.Analysis.DeadKeys
import SilentCompose.Analysis.Erasure
import SilentCompose.Analysis.IrrelevantBits
import SilentCompose.Analysis.Isolation
import SilentCompose.Analysis.KeyReleases
import SilentCompose.Analysis.MirroredProperties
import SilentCompose.Analysis.Ordering
import SilentCompose.Analysis.PassthroughBuffer
import SilentCompose.Analysis.Relaying
import SilentCompose.Analysis.StateSpace
import SilentCompose.Analysis.SymbolLookup
import SilentCompose.Analysis.TemporaryText
import SilentCompose.Analysis.Typing
import SilentCompose.Analysis.TextBudget
import SilentCompose.Analysis.Transcript
import SilentCompose.Analysis.AltGrLayer
import SilentCompose.Analysis.Keycodes
import SilentCompose.Analysis.Startup
import SilentCompose.Analysis.Stages
