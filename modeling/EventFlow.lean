import EventFlow.Config.Document
import EventFlow.Config.Environment
import EventFlow.Conflict.Record
import EventFlow.Flow.Listing
import EventFlow.Host
import EventFlow.Host.Clockwork
import EventFlow.Monitoring
import EventFlow.Proofs.Conflict.Fair
import EventFlow.Proofs.Flow.Agenda
import EventFlow.Proofs.Instance.Progress
import EventFlow.Proofs.Instance.Merging
import EventFlow.Proofs.Instance.Vetted
import EventFlow.Proofs.Engine.Stranded
import EventFlow.Proofs.Engine.Ending
import EventFlow.Proofs.Engine.Fates
import EventFlow.Proofs.Engine.Orphans
import EventFlow.Proofs.Engine.Snapshot
import EventFlow.Proofs.Engine.Finality
import EventFlow.Proofs.Engine.Scopes
import EventFlow.Proofs.Engine.Guards
import EventFlow.Proofs.Engine.Loaded
import EventFlow.Proofs.Engine.Seniority
import EventFlow.Proofs.Matching
import EventFlow.Proofs.Instance.Summary
import EventFlow.Proofs.Engine.Totals
import EventFlow.Proofs.Engine.Coherent
import EventFlow.Proofs.Host.Completions
import EventFlow.Proofs.Flow.Offence
import EventFlow.Proofs.Flow.Record
import EventFlow.Proofs.Id.Unique
import EventFlow.Proofs.Instance.Inside
