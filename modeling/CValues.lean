import CValues.Proofs.CType.Ambiguity
import CValues.Proofs.Conversion.Agreement
import CValues.Proofs.Conversion.Logging
import CValues.Proofs.Expr.Printing
import CValues.Proofs.Expr.Relexing
import CValues.Proofs.Expr.TargetIndependence
import CValues.Proofs.Heap.Elements
import CValues.Proofs.Heap.Extent
import CValues.Proofs.Heap.Freed
import CValues.Proofs.Heap.Persistence
import CValues.Proofs.Heap.Punning
import CValues.Proofs.Pointer.Distance
import CValues.Proofs.Pointer.Null
import CValues.Proofs.Pointer.Retyping
import CValues.Proofs.Text.CodePoints
import CValues.Proofs.TypeNames.History
import CValues.Proofs.Word.Canonical
