import Mathlib.Data.List.Chain
import SourceMend.Proofs.Bytes.Frames

/-!
The spans tile the text. Each step of the scanner marks the bytes that it moves over, so it comes to
the end, and the spans lie side by side.
-/
namespace SourceMend

/-- The spans lie side by side from byte `start` up to byte `stop`, and none could be joined to the
next one. -/
structure Tiles (start : Nat) (spans : List Span) (stop : Nat) : Prop where
  nonempty : ∀ s ∈ spans, s.start < s.stop
  first : ∀ s ∈ spans.head?, s.start = start
  next : spans.IsChain fun s t => s.stop = t.start ∧ s.kind ≠ t.kind
  last : (spans.getLast?.map (·.stop)).getD start = stop

namespace Tiles

variable {start stop : Nat} {s : Span} {spans : List Span}

theorem nil (pos : Nat) : Tiles pos [] pos := ⟨by simp, by simp, .nil, rfl⟩

theorem concat (h : Tiles start spans s.start) (hs : s.start < s.stop)
    (hkind : ∀ t ∈ spans.getLast?, t.kind ≠ s.kind) : Tiles start (spans ++ [s]) s.stop where
  nonempty := by simpa [or_imp, forall_and] using ⟨h.nonempty, hs⟩
  first t ht := by
    cases spans with
    | nil =>
      obtain rfl : s = t := by simpa using ht
      exact h.last.symm
    | cons u us => exact h.first t ht
  next := by
    refine List.isChain_append.2 ⟨h.next, .singleton _, fun t ht u hu => ?_⟩
    obtain rfl : s = u := by simpa using hu
    have hlast := h.last
    rw [Option.mem_def.1 ht] at hlast
    exact ⟨hlast, hkind t ht⟩
  last := by simp

theorem of_concat (h : Tiles start (spans ++ [s]) stop) :
    Tiles start spans s.start ∧ s.start < s.stop ∧ s.stop = stop ∧
      ∀ t ∈ spans.getLast?, t.kind ≠ s.kind := by
  obtain ⟨hchain, -, hjoin⟩ := List.isChain_append.1 h.next
  refine ⟨⟨fun t ht => h.nonempty t (List.mem_append_left _ ht), fun t ht => h.first t ?_, hchain,
    ?_⟩, h.nonempty s (by simp), by simpa using h.last, fun t ht => (hjoin t ht s rfl).2⟩
  · simp [Option.mem_def.1 ht]
  · cases hlast : spans.getLast? with
    | none =>
      obtain rfl := List.getLast?_eq_none_iff.1 hlast
      exact (h.first s rfl).symm
    | some t => exact (hjoin t hlast s rfl).1

end Tiles

namespace Bytes

/-! Runs -/

section Runs

variable {text : Text} {d : Dialect} {s t : State}

/-- More bytes are marked behind the last span. -/
theorem tiles_mark {start : Nat} {spans : List Span} {m : Span}
    (h : Tiles start spans.reverse m.start) (hlt : m.start < m.stop) :
    Tiles start (mark m spans).reverse m.stop := by
  unfold mark
  rw [if_neg (Nat.not_le.2 hlt)]
  cases spans with
  | nil => exact h.concat hlt (by simp)
  | cons s rest =>
    have hwhole := h
    rw [List.reverse_cons] at h
    obtain ⟨hrest, hs, hstop, hkinds⟩ := h.of_concat
    dsimp only
    split
    · rw [List.reverse_cons]
      exact Tiles.concat (s := { s with stop := m.stop }) hrest (by dsimp only; omega) hkinds
    · next hkind =>
      rw [List.reverse_cons]
      refine hwhole.concat hlt fun t ht hsame => hkind ?_
      obtain rfl : s = t := by simpa using ht
      exact ⟨hsame, hstop⟩

theorem Passes.tiles (h : Passes text d s t) (hs : Tiles 0 s.spans.reverse s.pos) :
    Tiles 0 t.spans.reverse t.pos := by
  induction h with
  | here => exact hs
  | @next s t st hlt hstep _ ih =>
    obtain ⟨⟨hstart, hstop⟩, hmoves, -⟩ := step_tight hstep
    refine ih ?_
    have hmarked := tiles_mark (m := st.marked) (hstart ▸ hs) (by omega)
    rwa [hstop] at hmarked

/-- A run that ends takes a step wherever it passes. -/
theorem Passes.exists_step {final : State} (h : Passes text d s t)
    (hrun : run text d s = some final) (hlt : t.pos < (Text.utf8 text).length) :
    ∃ st, step text d t.control t.pos = some st := by
  rw [h.run_eq, run, if_pos hlt] at hrun
  obtain ⟨st, hst, -⟩ := Option.bind_eq_some_iff.1 hrun
  exact ⟨st, hst⟩

end Runs

/-- The scanner comes to the end of the text, and its spans lie side by side from the first byte of
the text to the last one. On the way each step marks the bytes that it moves over, one at least, so
that there are no more steps than bytes. -/
theorem scan_tiles (text : Text) (d : Dialect) :
    let src := Text.utf8 text
    let scope := ScopeMap.scan text d
    scan text d = some scope ∧ Tiles 0 scope.spans src.length ∧
    ∀ s, Passes text d {} s → s.pos < src.length →
      ∃ st, step text d s.control s.pos = some st ∧ st.Tight src s.pos := by
  obtain ⟨hpass, hend⟩ := passes_end text d
  refine ⟨scan_eq text d, ?_, fun s hs hlt => ?_⟩
  · have htiles := hpass.tiles (Tiles.nil 0)
    rw [hend, ofState, List.reverse_reverse] at htiles
    exact htiles
  · obtain ⟨st, hst⟩ := hs.exists_step (run_eq text d) hlt
    exact ⟨st, hst, step_tight hst⟩

/-- A template that ends with the text, and so does the escape in it. -/
theorem scan_tiles_unfinished :
    let text := "a = `é\\".toList
    let spans : List Span := [⟨.code, 0, 4⟩, ⟨.template, 4, 8⟩]
    (scan text .script).map (·.spans) = some spans ∧ Tiles 0 spans 8 ∧
    ∃ st, step text .script {} 0 = some st ∧ st.Tight (Text.utf8 text) 0 := by
  intro text spans
  obtain ⟨hscan, htiles, hsteps⟩ := scan_tiles text .script
  have hspans : (ScopeMap.scan text .script).spans = spans := by decide +kernel
  have hlength : (Text.utf8 text).length = 8 := by decide +kernel
  rw [hspans, hlength] at htiles
  refine ⟨?_, htiles, hsteps {} (.here _) (by rw [hlength]; decide)⟩
  rw [hscan, Option.map_some, hspans]

end Bytes
end SourceMend
