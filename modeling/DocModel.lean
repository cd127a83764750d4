import DocModel.Main
import DocModel.Proofs.Class.Ancestors
import DocModel.Proofs.Class.Arrival
import DocModel.Proofs.Class.Hierarchy
import DocModel.Proofs.Class.Schemas
import DocModel.Proofs.Instance.DocumentForm
import DocModel.Proofs.Instance.Folding
import DocModel.Proofs.Instance.Requirements
import DocModel.Proofs.Output.StrictRuns
import DocModel.Proofs.Project.ClassArtifacts
import DocModel.Proofs.Project.DryRuns
import DocModel.Proofs.Project.OutputRecords
import DocModel.Proofs.Project.Reports
import DocModel.Proofs.Schema.ClosestBranch
import DocModel.Proofs.Schema.SmallerSchemas
import DocModel.Proofs.Schema.UndeclaredFields
import DocModel.Proofs.Snapshot.Content
import DocModel.Proofs.Snapshot.Reads
import DocModel.Proofs.Snapshot.Relocation
import DocModel.Proofs.Template.Keys
import DocModel.Proofs.Validation.IssueKeywords
import DocModel.Proofs.Validation.Policy
import DocModel.Proofs.Workspace.ScanOrder
