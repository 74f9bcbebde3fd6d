import RtspControl.Proofs.Course
import RtspControl.Proofs.Readability

/-!
# What a snapshot says

The snapshot of a connection is the document of its descriptor, and no task changes that: not the
phase, nor the tracks, nor anything the peer has answered is in it. So the snapshots of two
connections agree as texts only if their descriptors agree in every field, whatever has happened on
either (`Course.snapshot_eq_iff`).
-/

namespace RtspControl

theorem Session.snapshot_inj {s s' : Session} :
    s.snapshot = s'.snapshot ↔ s.descriptor = s'.descriptor := by
  unfold snapshot
  rw [Json.Value.toText_inj, Descriptor.toJson_injective.eq_iff]

namespace Course

/-- A connection keeps its descriptor, whoever's turn it is and whatever he does. -/
theorem descriptor_session (r : Course) : r.session.descriptor = r.descriptor := by
  have step (t : Task) (s : Session) (suits : t.Suits r.role)
      (kept : s.role = r.role ∧ s.descriptor = r.descriptor) :
      ((t.step s).2.role = r.role ∧ (t.step s).2.descriptor = r.descriptor) ∧
        ∀ t' ∈ (t.step s).1, t'.Suits r.role := by
    obtain ⟨role, descriptor⟩ := kept
    rw [← role] at suits ⊢
    have onward := Task.onward_step suits
    exact ⟨⟨onward.role, onward.descriptor.trans descriptor⟩, Task.suits_step suits⟩
  have waiting : ∀ ts ∈ r.beginning.waiting, ∀ t ∈ ts, t.Suits r.role := by
    intro ts hts
    obtain ⟨ops, -, rfl⟩ := List.mem_map.mp hts
    exact Task.suits_perform .outside ops
  exact (Scene.forall_moves step ⟨rfl, rfl⟩ waiting r.schedule).2.2

/-- Snapshots are the same text if and only if the descriptors agree in every field. Nothing else
about the two connections has a part in it: what they are for, what they were set to, what their
callers did or their peers answered. -/
theorem snapshot_eq_iff (r r' : Course) :
    r.session.snapshot = r'.session.snapshot ↔ r.descriptor = r'.descriptor := by
  rw [Session.snapshot_inj, r.descriptor_session, r'.descriptor_session]

end Course

end RtspControl
