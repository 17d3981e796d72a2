import OpenMat.Ssa.Prune
import OpenMat.Numeric.Prune
import OpenMat.StaticFunction.Correctness
import OpenMat.Sparse.Elementwise
import OpenMat.Sparse.Layout
import OpenMat.Sparse.Product
import OpenMat.Sparse.Assign
import OpenMat.Lowering.Correctness
import OpenMat.Lowering.Success
import OpenMat.Lowering.Verified
import OpenMat.Authoring.BuildGraph
import OpenMat.Bytecode.ExceptionTable
import OpenMat.Documents.History
import OpenMat.Documents.Recovery
import OpenMat.Objects.Lifecycle
import OpenMat.Objects.Collection
import OpenMat.Indexing.Grown
import OpenMat.Lexing.Continuation
import OpenMat.Objects.Batch
import OpenMat.Table.Lookup
import OpenMat.Kernel.Interrupts
import OpenMat.Kernel.Revision
import OpenMat.Mat.Files
import OpenMat.Nested.Sharing
import OpenMat.Protocol.Codec
import OpenMat.Graphics.Assembly
import OpenMat.Graphics.Attachments
import OpenMat.Indexing.Broadcast
import OpenMat.Arrays.IndexRange
import OpenMat.Sequence.Removal
import OpenMat.Sparse.Relayout
import OpenMat.Sparse.Delete
import OpenMat.Sparse.Gather
import OpenMat.Sparse.Dense
import OpenMat.Sparse.Concatenate
import OpenMat.Documents.Lines
import OpenMat.Documents.Paths
import OpenMat.Nested.FreeNames
import OpenMat.Indexing.Selected
import OpenMat.Text.Decimal
import OpenMat.Builtins.Distinct
import OpenMat.Builtins.Fibres
import OpenMat.Builtins.IsMember
import OpenMat.Builtins.Membership
import OpenMat.Sequence.Strides
import OpenMat.Documents.Ordered
import OpenMat.Builtins.Rearranged
import OpenMat.Framing.Frames
import OpenMat.Scripts.Calls
import OpenMat.Protocol.Fitted
import OpenMat.Documents.Restored
import OpenMat.Slx.Resolved
import OpenMat.Builtins.Concatenated
import OpenMat.Bits.TwosComplement
import OpenMat.Floats.Significant
import OpenMat.Builtins.Bitwise
import OpenMat.Builtins.Words
import OpenMat.Builtins.Expanded
import OpenMat.Builtins.WordArrays
import OpenMat.Builtins.BitFunctions
import OpenMat.Traversal.Worklist
