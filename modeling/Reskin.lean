import Reskin.Main
import Reskin.Proofs.Batch.Failures
import Reskin.Proofs.Batch.Modes
import Reskin.Proofs.Batch.Order
import Reskin.Proofs.Batch.Reports
import Reskin.Proofs.Batch.SecondRun
import Reskin.Proofs.Ini.Joined
import Reskin.Proofs.Ini.Roots
import Reskin.Proofs.ModFile.BufferFiles
import Reskin.Proofs.Naming.Collisions
import Reskin.Proofs.ModFile.Endings
import Reskin.Proofs.ModFile.LoadedFiles
import Reskin.Proofs.Batch.GeneratedFiles
import Reskin.Proofs.ModFile.Names
import Reskin.Proofs.ModFile.References
import Reskin.Proofs.ModFile.Remainder
import Reskin.Proofs.ModFile.Truncation
import Reskin.Proofs.ModFile.Unfixed
import Reskin.Proofs.Remap.SecondErasure
import Reskin.Proofs.Remap.Survivors
import Reskin.Proofs.Remap.Rewriting
import Reskin.Proofs.ModFile.Variants
import Reskin.Proofs.ModFile.Ids
import Reskin.Proofs.ModFile.Added
import Reskin.Proofs.ModFile.Answers
import Reskin.Proofs.ModFile.History
import Reskin.Proofs.Ini.Pairs
import Reskin.Proofs.Naming.Sorting
