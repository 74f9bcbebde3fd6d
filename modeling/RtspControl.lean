import RtspControl.Outline
import RtspControl.Session.Run
import RtspControl.Descriptor.Issue
import RtspControl.Proofs.Serving
import RtspControl.Proofs.Phases
import RtspControl.Proofs.Joining
import RtspControl.Proofs.Closings
import RtspControl.Proofs.Numbering
import RtspControl.Proofs.Allotment
import RtspControl.Proofs.Settling
import RtspControl.Proofs.Nesting
import RtspControl.Proofs.Returning
import RtspControl.Proofs.Roles
import RtspControl.Proofs.Transitions
import RtspControl.Proofs.Acceptance
import RtspControl.Proofs.Documents
import RtspControl.Proofs.Provenance
import RtspControl.Proofs.Stale
import RtspControl.Proofs.Doings
import RtspControl.Proofs.Hooks
import RtspControl.Proofs.Reports
import RtspControl.Proofs.Forgotten
import RtspControl.Proofs.Timeouts
import RtspControl.Proofs.Snapshots
import RtspControl.Proofs.Renewals
import RtspControl.Proofs.Weakening
import RtspControl.Proofs.Lineage
import RtspControl.Proofs.Numerals
