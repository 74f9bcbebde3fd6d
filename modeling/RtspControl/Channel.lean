import RtspControl.Fault

/-!
# Interleaved channels

Media of a session travels on numbered channels of the control connection, two for a
track: an even one for the media and the odd one after it for its control packets
(RFC 2326 §10.12). Where no SETUP response assigns the channel, the track after `n`
others of its kind takes channel `2 * n`, as long as the pair fits in a byte.
-/

namespace RtspControl.Channel

/-- How many channel pairs there are. -/
def pairs : Nat := 128

/-- The channel of the next track when `count` tracks of its kind are registered. -/
def interleaved (count : Nat) : Except Fault UInt8 :=
  if count < pairs then .ok (UInt8.ofNat (2 * count)) else .error (.channelsExhausted count)

/-- A channel is handed out exactly while fewer than 128 tracks are registered, and it is
then twice their number. -/
theorem interleaved_eq_ok_iff {count : Nat} {c : UInt8} :
    interleaved count = .ok c ↔ count < pairs ∧ c.toNat = 2 * count := by
  unfold interleaved
  split
  · next h =>
    have hp : count < 128 := h
    constructor
    · intro he
      cases he
      exact ⟨h, by simp; omega⟩
    · rintro ⟨-, hc⟩
      congr 1
      exact UInt8.toNat_inj.mp (by simp; omega)
  · next h => simp [h]

end RtspControl.Channel
