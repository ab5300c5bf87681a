/-
Grouping snippets cuts them into as few runs as can be.

Two snippets clash if one of them gathers a range that overlaps the one that the other writes. A run of snippets is
`Compatible` if all have one work size and no two of them, at different places, clash; every part of such a run is
compatible, too.
- `accepts_eq_ok`: a group takes a snippet in exactly if the run with it is compatible;
- `exists_division_of_append`: what is left of a division behind any point can be divided into no more runs. So a group
  that was closed loses nothing against a division that goes on there;
- `groups_spec`: so grouping answers the snippets in order, cut into valid groups, and no division into compatible runs
  has fewer of them;
- `exists_groups`: it does answer if no range ends past the largest size (`Snippet.Ranged`).
-/
import Mathlib.Tactic
import ArrayEngine.Proofs.Outcome
import ArrayEngine.Shader.Fusion

namespace ArrayEngine.Shader

/-! ## Clashes -/

namespace Snippet

/-- the ranges of a snippet do not end past the largest size -/
structure Ranged (s : Snippet) : Prop where
  written : ∃ r, s.call.written = .ok r
  gathered : ∃ r, s.call.gathered = .ok r

/-- one snippet gathers a range that overlaps what another one writes -/
def GathersFrom (s t : Snippet) : Prop :=
  ∃ r w, s.call.gathered = .ok (some r) ∧ t.call.written = .ok w ∧ r.start < w.stop ∧ w.start < r.stop

/-- one of two snippets gathers from the other -/
def Clashes (s t : Snippet) : Prop := s.GathersFrom t ∨ t.GathersFrom s

theorem Clashes.symm {s t : Snippet} (h : s.Clashes t) : t.Clashes s := Or.symm h

variable {s t : Snippet} {b : Bool}

theorem gathersFrom_eq_ok (h : s.call.gathersFrom t.call = .ok b) : b = true ↔ s.GathersFrom t := by
  obtain ⟨gathered, hg, h⟩ := bind_eq_ok.1 h
  cases gathered with
  | none =>
    cases h
    simp [GathersFrom, hg]
  | some r =>
    obtain ⟨w, hw, h⟩ := bind_eq_ok.1 h
    cases h
    simp [GathersFrom, hg, hw, Range.overlaps]

theorem exists_gathersFrom (hs : s.Ranged) (ht : t.Ranged) : ∃ b, s.call.gathersFrom t.call = .ok b := by
  obtain ⟨gathered, hg⟩ := hs.gathered
  obtain ⟨w, hw⟩ := ht.written
  cases gathered with
  | none => exact ⟨false, bind_eq_ok.2 ⟨none, hg, rfl⟩⟩
  | some r => exact ⟨r.overlaps w, bind_eq_ok.2 ⟨some r, hg, bind_eq_ok.2 ⟨w, hw, rfl⟩⟩⟩

theorem conflicts_eq_ok (h : s.conflicts t = .ok b) : b = true ↔ s.Clashes t := by
  obtain ⟨first, hfirst, h⟩ := bind_eq_ok.1 h
  have hiff := gathersFrom_eq_ok hfirst
  cases first with
  | true =>
    cases h
    exact iff_of_true rfl (.inl (hiff.1 rfl))
  | false =>
    have hnot : ¬s.GathersFrom t := fun hclash => Bool.false_ne_true (hiff.2 hclash)
    exact (gathersFrom_eq_ok h).trans (or_iff_right hnot).symm

theorem exists_conflicts (hs : s.Ranged) (ht : t.Ranged) : ∃ b, s.conflicts t = .ok b := by
  obtain ⟨first, hfirst⟩ := exists_gathersFrom hs ht
  obtain ⟨second, hsecond⟩ := exists_gathersFrom ht hs
  cases first with
  | true => exact ⟨true, bind_eq_ok.2 ⟨true, hfirst, rfl⟩⟩
  | false => exact ⟨second, bind_eq_ok.2 ⟨false, hfirst, hsecond⟩⟩

end Snippet

/-! ## Compatible runs -/

/-- snippets that can share a dispatch: they have one work size, and no two of them clash -/
structure Compatible (run : List Snippet) : Prop where
  uniform : ∀ s ∈ run, ∀ t ∈ run, s.workSize = t.workSize
  apart : run.Pairwise fun s t => ¬s.Clashes t

theorem Compatible.sublist {run part : List Snippet} (h : Compatible run) (hpart : part.Sublist run) :
    Compatible part :=
  ⟨fun s hs t ht => h.uniform s (hpart.subset hs) t (hpart.subset ht), h.apart.sublist hpart⟩

/-- a snippet behind a compatible run -/
theorem compatible_concat {run : List Snippet} {s : Snippet} :
    Compatible (run ++ [s]) ↔ Compatible run ∧ (∀ t ∈ run, t.workSize = s.workSize) ∧ ∀ t ∈ run, ¬t.Clashes s := by
  constructor
  · intro h
    refine ⟨h.sublist (List.sublist_append_left run [s]), ?_, ?_⟩
    · intro t ht
      exact h.uniform t (List.mem_append_left _ ht) s List.mem_concat_self
    · intro t ht
      exact (List.pairwise_append.1 h.apart).2.2 t ht s List.mem_cons_self
  · rintro ⟨h, hsize, hclash⟩
    refine ⟨?_, List.pairwise_append.2 ⟨h.apart, List.pairwise_singleton _ s, ?_⟩⟩
    · intro t ht u hu
      rcases List.mem_append.1 ht with ht | ht <;> rcases List.mem_append.1 hu with hu | hu
      · exact h.uniform t ht u hu
      · rw [List.mem_singleton.1 hu]
        exact hsize t ht
      · rw [List.mem_singleton.1 ht]
        exact (hsize u hu).symm
      · rw [List.mem_singleton.1 ht, List.mem_singleton.1 hu]
    · intro t ht u hu
      rw [List.mem_singleton.1 hu]
      exact hclash t ht

/-- **Cutting off.** A division into compatible runs leaves, behind any point, a division into no more runs. -/
theorem exists_division_of_append {runs : List (List Snippet)} {before behind : List Snippet}
    (hflat : runs.flatten = before ++ behind) (hruns : ∀ run ∈ runs, Compatible run) :
    ∃ rest : List (List Snippet), rest.flatten = behind ∧ (∀ run ∈ rest, Compatible run) ∧
      rest.length ≤ runs.length := by
  induction runs generalizing before with
  | nil =>
    obtain ⟨-, rfl⟩ := List.append_eq_nil_iff.1 hflat.symm
    exact ⟨[], rfl, nofun, le_rfl⟩
  | cons run runs ih =>
    obtain ⟨hrun, hrest⟩ := List.forall_mem_cons.1 hruns
    rw [List.flatten_cons] at hflat
    rcases List.append_eq_append_iff.1 hflat with ⟨more, rfl, hmore⟩ | ⟨kept, rfl, rfl⟩
    · -- the first run ends before the point
      obtain ⟨rest, hbehind, hcompatible, hle⟩ := ih hmore hrest
      exact ⟨rest, hbehind, hcompatible, hle.trans (Nat.le_succ _)⟩
    · -- the point lies in the first run, of which the last part is kept
      refine ⟨kept :: runs, rfl, List.forall_mem_cons.2 ⟨?_, hrest⟩, le_rfl⟩
      exact hrun.sublist (List.sublist_append_right before kept)

/-! ## Groups -/

namespace Group

/-- a group that can share a dispatch: it is not empty, all of its snippets have its work size, and no two of them
clash -/
structure Valid (g : Group) : Prop where
  nonempty : g.snippets ≠ []
  uniform : ∀ s ∈ g.snippets, s.workSize = g.workSize
  apart : g.snippets.Pairwise fun s t => ¬s.Clashes t

variable {g : Group} {gs : List Group} {s : Snippet} {rest ts : List Snippet} {b : Bool}

theorem Valid.compatible (h : g.Valid) : Compatible g.snippets :=
  ⟨fun s hs t ht => (h.uniform s hs).trans (h.uniform t ht).symm, h.apart⟩

theorem valid_single (s : Snippet) : (single s).Valid :=
  ⟨List.cons_ne_nil s [], fun t ht => by rw [List.mem_singleton.1 ht]; rfl, List.pairwise_singleton _ s⟩

theorem Valid.push (h : g.Valid) (hs : Compatible (g.snippets ++ [s])) : (g.push s).Valid := by
  refine ⟨List.append_ne_nil_of_right_ne_nil _ (List.cons_ne_nil s []), ?_, hs.apart⟩
  obtain ⟨t, ht⟩ := List.exists_mem_of_ne_nil _ h.nonempty
  intro u hu
  exact (hs.uniform u hu t (List.mem_append_left _ ht)).trans (h.uniform t ht)

theorem anyConflict_eq_ok (h : anyConflict s ts = .ok b) : b = false ↔ ∀ t ∈ ts, ¬t.Clashes s := by
  induction ts with
  | nil =>
    cases h
    simp
  | cons t ts ih =>
    obtain ⟨first, hfirst, h⟩ := bind_eq_ok.1 h
    have hiff := Snippet.conflicts_eq_ok hfirst
    rw [List.forall_mem_cons, ← hiff]
    cases first with
    | true =>
      cases h
      simp
    | false => exact (ih h).trans (and_iff_right Bool.false_ne_true).symm

theorem exists_anyConflict (hs : s.Ranged) (hts : ∀ t ∈ ts, t.Ranged) : ∃ b, anyConflict s ts = .ok b := by
  induction ts with
  | nil => exact ⟨false, rfl⟩
  | cons t ts ih =>
    obtain ⟨ht, hrest⟩ := List.forall_mem_cons.1 hts
    obtain ⟨first, hfirst⟩ := Snippet.exists_conflicts ht hs
    obtain ⟨b, hb⟩ := ih hrest
    cases first with
    | true => exact ⟨true, bind_eq_ok.2 ⟨true, hfirst, rfl⟩⟩
    | false => exact ⟨b, bind_eq_ok.2 ⟨false, hfirst, hb⟩⟩

/-- a valid group takes a snippet in exactly if the run with it is compatible -/
theorem accepts_eq_ok (hg : g.Valid) (h : g.accepts s = .ok b) : b = true ↔ Compatible (g.snippets ++ [s]) := by
  obtain ⟨u, hu⟩ := List.exists_mem_of_ne_nil _ hg.nonempty
  have hsize : (∀ t ∈ g.snippets, t.workSize = s.workSize) ↔ g.workSize = s.workSize :=
    ⟨fun hall => (hg.uniform u hu).symm.trans (hall u hu), fun hw t ht => (hg.uniform t ht).trans hw⟩
  rw [compatible_concat, and_iff_right hg.compatible, hsize]
  unfold accepts at h
  split_ifs at h with hw
  · obtain ⟨conflict, hconflict, h⟩ := bind_eq_ok.1 h
    cases h
    rw [and_iff_right hw, ← anyConflict_eq_ok hconflict, Bool.not_eq_true']
  · cases h
    exact iff_of_false Bool.false_ne_true fun hboth => hw hboth.1

theorem exists_accepts (hg : ∀ t ∈ g.snippets, t.Ranged) (hs : s.Ranged) : ∃ b, g.accepts s = .ok b := by
  unfold accepts
  split_ifs
  · obtain ⟨b, hb⟩ := exists_anyConflict hs hg
    exact ⟨!b, bind_eq_ok.2 ⟨b, hb, rfl⟩⟩
  · exact ⟨false, rfl⟩

/-- what follows an open group: it takes the next snippet in, or it is closed and the next snippet opens another one -/
theorem close_cons_eq_ok : g.close (s :: rest) = .ok gs ↔
    g.accepts s = .ok true ∧ (g.push s).close rest = .ok gs ∨
      g.accepts s = .ok false ∧ ∃ gs', (single s).close rest = .ok gs' ∧ gs = g :: gs' := by
  simp only [close, bind_eq_ok, Bool.exists_bool, pure_eq_ok, if_true, Bool.false_eq_true, if_false, eq_comm (a := gs)]
  exact or_comm

/-- **Behind an open group.** The groups that follow a valid group hold its snippets and the rest in order, are valid,
and are no more than the runs of any division of the same snippets. -/
theorem close_spec (hg : g.Valid) (h : g.close rest = .ok gs) :
    gs.flatMap (·.snippets) = g.snippets ++ rest ∧ (∀ g' ∈ gs, g'.Valid) ∧
      ∀ runs : List (List Snippet), runs.flatten = g.snippets ++ rest → (∀ run ∈ runs, Compatible run) →
        gs.length ≤ runs.length := by
  induction rest generalizing g gs with
  | nil =>
    cases h
    refine ⟨by simp, List.forall_mem_singleton.2 hg, ?_⟩
    rintro (_ | ⟨run, runs⟩) hflat -
    · exact absurd (List.append_eq_nil_iff.1 hflat.symm).1 hg.nonempty
    · exact Nat.le_add_left 1 runs.length
  | cons s rest ih =>
    rcases close_cons_eq_ok.1 h with ⟨haccepts, hclose⟩ | ⟨haccepts, gs, hclose, rfl⟩
    · have hspec := ih (hg.push ((accepts_eq_ok hg haccepts).1 rfl)) hclose
      rwa [push, List.append_assoc] at hspec
    · obtain ⟨hflat, hvalid, hleast⟩ := ih (valid_single s) hclose
      refine ⟨congrArg (g.snippets ++ ·) hflat, List.forall_mem_cons.2 ⟨hg, hvalid⟩, ?_⟩
      rintro (_ | ⟨run, runs⟩) hdivision hruns
      · exact absurd (List.append_eq_nil_iff.1 hdivision.symm).1 hg.nonempty
      obtain ⟨hrun, hothers⟩ := List.forall_mem_cons.1 hruns
      -- the first run of a division ends where `g` does, or before: one that went on would hold `g` and `s`
      have hbehind : ∃ before, runs.flatten = before ++ s :: rest := by
        rcases List.append_eq_append_iff.1 hdivision with ⟨before, -, hbefore⟩ | ⟨more, hmore, hrest⟩
        · exact ⟨before, hbefore⟩
        · cases more with
          | nil => exact ⟨[], hrest.symm⟩
          | cons s' more =>
            obtain ⟨rfl, -⟩ := List.cons.inj hrest
            have hpart : (g.snippets ++ [s]).Sublist run := by
              rw [hmore]
              exact (List.singleton_sublist.2 List.mem_cons_self).append_left g.snippets
            exact absurd ((accepts_eq_ok hg haccepts).2 (hrun.sublist hpart)) Bool.false_ne_true
      obtain ⟨before, hbefore⟩ := hbehind
      obtain ⟨division, hdivided, hcompatible, hle⟩ := exists_division_of_append hbefore hothers
      exact Nat.succ_le_succ ((hleast division hdivided hcompatible).trans hle)

theorem exists_close (hranged : ∀ t ∈ g.snippets ++ rest, t.Ranged) : ∃ gs, g.close rest = .ok gs := by
  induction rest generalizing g with
  | nil => exact ⟨[g], rfl⟩
  | cons s rest ih =>
    obtain ⟨hmembers, hrest⟩ := List.forall_mem_append.1 hranged
    obtain ⟨b, hb⟩ := exists_accepts hmembers (hrest s List.mem_cons_self)
    cases b with
    | true =>
      have hpush : ∀ t ∈ (g.push s).snippets ++ rest, t.Ranged := by
        rw [push, List.append_assoc]
        exact hranged
      obtain ⟨gs, hgs⟩ := ih hpush
      exact ⟨gs, close_cons_eq_ok.2 (.inl ⟨hb, hgs⟩)⟩
    | false =>
      obtain ⟨gs, hgs⟩ := ih (g := single s) hrest
      exact ⟨g :: gs, close_cons_eq_ok.2 (.inr ⟨hb, gs, hgs, rfl⟩)⟩

end Group

/-- **As few groups as can be.** Grouping answers valid groups that hold the snippets in order, and no more of them than
any division into compatible runs has. -/
theorem groups_spec {snippets : List Snippet} {gs : List Group} (h : groups snippets = .ok gs) :
    gs.flatMap (·.snippets) = snippets ∧ (∀ g ∈ gs, g.Valid) ∧
      ∀ runs : List (List Snippet), runs.flatten = snippets → (∀ run ∈ runs, Compatible run) →
        gs.length ≤ runs.length := by
  cases snippets with
  | nil =>
    cases h
    exact ⟨rfl, nofun, fun _ _ _ => Nat.zero_le _⟩
  | cons s rest => exact Group.close_spec (Group.valid_single s) h

theorem exists_groups {snippets : List Snippet} (hranged : ∀ s ∈ snippets, s.Ranged) :
    ∃ gs, groups snippets = .ok gs := by
  cases snippets with
  | nil => exact ⟨[], rfl⟩
  | cons s rest => exact Group.exists_close (g := .single s) hranged

end ArrayEngine.Shader
