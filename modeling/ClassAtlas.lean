import ClassAtlas.ClassFile.Build
import ClassAtlas.ClassFile.Decode
import ClassAtlas.ClassFile.Encode
import ClassAtlas.ClassFile.Usage
import ClassAtlas.Code.Assembly
import ClassAtlas.Symbol.Identity
import ClassAtlas.Symbol.Kind
import ClassAtlas.TypeText.Signature
import ClassAtlas.Workspace.FileName
import ClassAtlas.Mapping.Delivery
import ClassAtlas.Mapping.Job
import ClassAtlas.Mapping.Run
import ClassAtlas.Mapping.Crew
import ClassAtlas.Renaming.Basic
import ClassAtlas.Text.JsonValue
import ClassAtlas.Workspace.Rename
import ClassAtlas.Workspace.Transfer
import ClassAtlas.Command.Arguments
import ClassAtlas.Command.Basic
import ClassAtlas.Command.Run
import ClassAtlas.Disk.Workspace
import ClassAtlas.Main
import ClassAtlas.Proofs.Renaming.ClassExact
import ClassAtlas.Proofs.Renaming.MemberExact
import ClassAtlas.Proofs.ClassFile.Tidy
import ClassAtlas.Proofs.Renaming.ClassInverse
import ClassAtlas.Proofs.ClassFile.Delimited
import ClassAtlas.Proofs.ClassFile.Referring
import ClassAtlas.Proofs.ClassFile.Spelling
import ClassAtlas.Proofs.ClassFile.Writable
import ClassAtlas.Proofs.Mapping.Findings
import ClassAtlas.Proofs.Mapping.Runs
import ClassAtlas.Proofs.Mapping.Batching
import ClassAtlas.Proofs.Mapping.Stretches
import ClassAtlas.Proofs.Symbol.Codec
import ClassAtlas.Proofs.Workspace.Closed
import ClassAtlas.Proofs.Workspace.Commit
import ClassAtlas.Proofs.Workspace.Mentions
import ClassAtlas.Proofs.Workspace.Reachable
import ClassAtlas.Proofs.Renaming.Inverse
import ClassAtlas.Proofs.Renaming.Session
import ClassAtlas.Proofs.Workspace.Complete
import ClassAtlas.Proofs.Workspace.Coherent
import ClassAtlas.Proofs.Workspace.Mapped
import ClassAtlas.Proofs.Workspace.Restored
import ClassAtlas.Proofs.Pool.Interning
import ClassAtlas.Proofs.Store.Declaring
import ClassAtlas.Proofs.Store.Statements
import ClassAtlas.Proofs.Store.Moving
import ClassAtlas.Proofs.TypeText.Descriptor
import ClassAtlas.Proofs.Mapping.Origins
import ClassAtlas.Proofs.Renaming.Unchanged
import ClassAtlas.Proofs.Renaming.Reach
import ClassAtlas.Proofs.Workspace.Splitting
import ClassAtlas.Proofs.ClassFile.Building
import ClassAtlas.Proofs.Code.Straight
import ClassAtlas.Proofs.Workspace.Accepted
import ClassAtlas.Proofs.Workspace.Imported
