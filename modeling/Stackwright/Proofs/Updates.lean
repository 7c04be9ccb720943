import Stackwright.Proofs.Session

/-! Updates of a session's source. A new text is told from the source by the fingerprints alone, so an update
is lost exactly when the two texts differ and have one fingerprint. -/

set_option autoImplicit false

namespace Stackwright.Session

variable {session : Session} {current : String}

theorem updateSource_eq (found : session.source = some current) (source : String) :
    session.updateSource source =
      if fingerprint source = fingerprint current then (.ok false, session)
      else (.ok true, { session with source := some source, code := none, isPending := true }) := by
  rw [updateSource, found]

/-- After an update the source has the fingerprint of the new text: it is the new text, or the one before if
that has the same fingerprint. -/
theorem source_updateSource (found : session.source = some current) (source : String) :
    (session.updateSource source).2.source =
      some (if fingerprint source = fingerprint current then current else source) := by
  rw [updateSource_eq found]
  split
  · exact found
  · rfl

/-- An update is answered and kept as it should be exactly when the fingerprints do not confuse the new text
with the source. -/
theorem updateSource_exact (session : Session) (current source : String) :
    let before := { session with source := some current }
    (((before.updateSource source).1 = .ok true ↔ source ≠ current) ∧
      (before.updateSource source).2.source = some source ∧
      ((before.updateSource source).1 = .ok false → (before.updateSource source).2 = before)) ↔
    (fingerprint source = fingerprint current → source = current) := by
  intro before
  have found : before.source = some current := rfl
  rw [source_updateSource found, updateSource_eq found]
  by_cases same : fingerprint source = fingerprint current
  · rw [if_pos same, if_pos same, Option.some.injEq]
    refine ⟨fun right _ => right.2.1.symm, fun told => ?_⟩
    have copy : source = current := told same
    exact ⟨⟨nofun, fun differ => absurd copy differ⟩, copy.symm, fun _ => rfl⟩
  · rw [if_neg same, if_neg same]
    have differ : source ≠ current := fun copy => same (congrArg fingerprint copy)
    exact ⟨fun _ confused => absurd confused same, fun _ => ⟨⟨fun _ => differ, fun _ => rfl⟩, rfl, nofun⟩⟩

/-- Two programs that print different numbers and have one fingerprint. -/
def counting : String := "main{print 80;}%revisionOkkzZzMz"

def recounting : String := "main{print 90;}%revision48884D9v"

/-- The update from one to the other is taken for no change, and the session goes on with the program it had. -/
theorem update_lost :
    let small := (starting {}).setConfig ⟨64, 99⟩
    let session := (small.setSource "count.bilby" counting).2
    recounting ≠ counting ∧ session.source = some counting ∧
    session.updateSource recounting = (.ok false, session) ∧
    session.run.1.toOption = some "80" ∧
    (small.setSource "count.bilby" recounting).2.run.1.toOption = some "90" := by
  intro small session
  have same : fingerprint recounting = fingerprint counting := by decide +kernel
  have found : session.source = some counting := rfl
  refine ⟨by decide, found, ?_, by decide +kernel, by decide +kernel⟩
  rw [updateSource_eq found, if_pos same]

end Stackwright.Session
