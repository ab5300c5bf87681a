/-
Which item a handle stands for.

`Tracked` runs a session and remembers of every handle the item that it was last inserted as or viewed from: its
`Origin`. An array that owns its elements has none. The memory changes nothing about the session (`session_run`).
- `Marked` is the invariant: a handle with an origin is the view of that item as it stands now, and one without an
  origin owns its elements. `handles_next` says what an operation does to handles and origins; `marked_next` is the step
  and `marked_run` the run;
- `next_write`: a write through such a view replaces the elements of the item, and no other word of any arena
  (`Overwritten`);
- `getElem?_run`: what no operation of a run is aimed at stays as it is, so a copy keeps its numbers;
- `handles_alias`: so a handle reads and writes one item, whatever was done before.
-/
import ArrayEngine.Proofs.Insertion

namespace ArrayEngine

/-! ## Arrays and windows -/

/-- an array bound to a window in place -/
def Tensor.rebind (w : Window) : EStateM Failure Tensor Unit := fun t =>
  match checkWindow t.shape w with
  | .ok _ => .ok () { t with storage := .view w }
  | .error f => .error f t

/-- an array takes every window of its size, and else stays what it is -/
theorem Tensor.Sound.rebind_eq {t : Tensor} (h : t.Sound) (w : Window) :
    rebind w t = if w.len = t.stored then .ok () { t with storage := .view w }
      else .error (.refused (.shapeMismatch "bind" (.window w.len t.extents))) t := by
  have hcount : t.shape.elementCount = .ok t.stored := h
  simp only [rebind, checkWindow, hcount, ok_lift_fault, ok_bind]
  split_ifs <;> rfl

namespace Buffer

variable {b : Backend}

/-- a store in which the elements of an item are other ones, and every other word of every arena is as before -/
structure Overwritten (buf : Buffer b) (item : Item) (s s' : Store) (ys : List Single) : Prop where
  elements : item.elements b (s'.arena buf.arena) = ys
  size : (s'.arena buf.arena).size = (s.arena buf.arena).size
  words : ∀ j, j < item.bodyWord b ∨ item.endWord b ≤ j →
    (s'.arena buf.arena).words[j]? = (s.arena buf.arena).words[j]?
  arenas : ∀ id ≠ buf.arena, s'.arena id = s.arena id

variable {buf : Buffer b} {s : Store} {name : String} {item : Item}

theorem overwritten_put (h : LaidOut b buf.directory (s.arena buf.arena)) (hlt : buf.arena.index < s.arenas.size)
    (hi : buf.directory.get? name = some item) {ys : List Single} (hlen : ys.length = item.count) :
    buf.Overwritten item s (s.put buf.arena ((s.arena buf.arena).put (item.bodyWord b) (ys.map Single.bits))) ys := by
  have hself := s.arena_put_self hlt ((s.arena buf.arena).put (item.bodyWord b) (ys.map Single.bits))
  have hin := (h.stored hi).inside
  have hroom : item.bodyWord b + (ys.map Single.bits).length ≤ (s.arena buf.arena).words.size := by
    rw [List.length_map, hlen]
    exact hin
  refine ⟨?_, ?_, ?_, fun id hne => Store.arena_put_of_ne hne _⟩
  · rw [hself]
    exact h.elements_put hi hlen
  · rw [hself, Arena.size_put]
  · intro j hj
    rw [hself, Arena.put, Arena.getElem?_overwrite _ _ _ hroom, List.length_map, hlen, if_neg]
    rw [Item.endWord] at hj
    omega

/-- a write through the view of an item -/
theorem update_handle (h : LaidOut b buf.directory (s.arena buf.arena)) (hi : buf.directory.get? name = some item)
    (shape : Shape) (change : Rewrite) :
    (buf.handle item shape).update s change.apply =
      match change.apply (item.elements b (s.arena buf.arena)) with
      | .ok ys => .ok (s.put buf.arena ((s.arena buf.arena).put (item.bodyWord b) (ys.map Single.bits)),
          buf.handle item shape)
      | .error f => .error f := by
  have hread : Window.read ⟨buf.arena, item.bodyWord b, item.count⟩ s = .ok (item.elements b (s.arena buf.arena)) :=
    data_handle h hi shape
  simp only [handle, Tensor.update, Window.update, hread, ok_bind]
  cases hchange : change.apply (item.elements b (s.arena buf.arena)) with
  | error f => rfl
  | ok ys =>
    have hlen : ys.length = item.count := (change.keeps hchange).trans (h.stored hi).length_elements
    have hwrite : (s.arena buf.arena).writeFloats (item.bodyWord b) ys =
        .ok ((s.arena buf.arena).put (item.bodyWord b) (ys.map Single.bits)) := by
      refine Arena.write_eq_ok.2 ⟨?_, rfl⟩
      rw [List.length_map, hlen]
      exact ⟨h.endWord_lt hi, (h.stored hi).inside⟩
    simp only [ok_bind, Store.modify, hwrite, pure_eq]

end Buffer

/-! ## Origins -/

/-- an item, by the position of its buffer and its name -/
structure Origin where
  buffer : Nat
  name : String
  deriving DecidableEq, Repr

variable {δ : Type}

/-- the origins of the handles after an operation that succeeds -/
def Action.origins (a : Action δ) (before : List (Option Origin)) : List (Option Origin) :=
  match a with
  | .own .. | .copy _ => before ++ [none]
  | .insert buffer name handle => before.set handle (some ⟨buffer, name⟩)
  | .view buffer name _ => before ++ [some ⟨buffer, name⟩]
  | _ => before

/-- the handle that an operation makes another array, or writes through -/
def Action.target? : Action δ → Option Nat
  | .insert _ _ handle | .write handle _ => some handle
  | _ => none

/-- a session with the origins of its handles -/
structure Tracked where
  session : Session
  origins : List (Option Origin)

namespace Tracked

def empty : Tracked := ⟨.empty, []⟩

variable [Device δ]

def step (x : Tracked) (a : Action δ) : Tracked :=
  match x.session.next a with
  | some s => ⟨s, a.origins x.origins⟩
  | none => x

def run (x : Tracked) (actions : List (Action δ)) : Tracked := actions.foldl step x

theorem session_step (x : Tracked) (a : Action δ) : (x.step a).session = x.session.step a := by
  unfold step Session.step
  cases x.session.next a <;> rfl

/-- origins change nothing about a session -/
theorem session_run (x : Tracked) (actions : List (Action δ)) : (x.run actions).session = x.session.run actions := by
  induction actions generalizing x with
  | nil => rfl
  | cons a actions ih =>
    calc ((x.step a).run actions).session = (x.step a).session.run actions := ih _
      _ = x.session.run (a :: actions) := by rw [session_step]; rfl

end Tracked

namespace Session

/-- a handle is the view of the item of its origin, as it stands now -/
structure Views (s : Session) (o : Origin) (t : Tensor) (x : AnyBuffer) (item : Item) : Prop where
  buffer : s.buffers[o.buffer]? = some x
  entry : x.directory.get? o.name = some item
  shape : Shape.ofExtents? item.kind item.shape = some t.shape
  window : t = x.buffer.handle item t.shape

/-- a handle goes with its origin: it is the view of the item, or owns its elements -/
def Refers (s : Session) (t : Tensor) : Option Origin → Prop
  | some o => ∃ x item, s.Views o t x item
  | none => ∃ data, t.storage = .owned data

/-- all handles go with their origins -/
structure Marked (s : Session) (origins : List (Option Origin)) : Prop where
  length : origins.length = s.handles.length
  refers : ∀ (k : Nat) (o : Option Origin) (t : Tensor), origins[k]? = some o → s.handles[k]? = some t → s.Refers t o

variable {s s' : Session} {t : Tensor} {o : Origin} {x : AnyBuffer} {item : Item} {origins : List (Option Origin)}

theorem Views.of_extends (h : s'.Extends s) (hv : s.Views o t x item) : ∃ x', s'.Views o t x' item := by
  obtain ⟨x', hx', hb, ha, hd⟩ := h _ x hv.buffer
  refine ⟨x', hx', hd _ _ hv.entry, hv.shape, ?_⟩
  obtain ⟨b, buf⟩ := x
  obtain ⟨b', buf'⟩ := x'
  cases hb
  have ha' : buf'.arena = buf.arena := ha
  rw [Buffer.handle, ha']
  exact hv.window

theorem Refers.of_extends (h : s'.Extends s) {o : Option Origin} (hr : s.Refers t o) : s'.Refers t o := by
  cases o with
  | none => exact hr
  | some o =>
    obtain ⟨x, item, hv⟩ := hr
    obtain ⟨x', hv'⟩ := hv.of_extends h
    exact ⟨x', item, hv'⟩

namespace Views

theorem viewed (hv : s.Views o t x item) (h : s.WellFormed) : x.buffer.view s.store o.name item.kind = .ok t := by
  refine (Buffer.view_eq_ok (h.laidOut hv.buffer)).2 ⟨item, t.shape, hv.entry, rfl, hv.shape, hv.window.symm⟩

theorem data (hv : s.Views o t x item) (h : s.WellFormed) :
    t.data s.store = .ok (item.elements x.backend (s.store.arena x.arena)) := by
  rw [hv.window]
  exact Buffer.data_handle (h.laidOut hv.buffer) hv.entry t.shape

theorem contents (hv : s.Views o t x item) (h : s.WellFormed) : x.buffer.contents s.store o.name =
    some ⟨t.shape, .owned (item.elements x.backend (s.store.arena x.arena))⟩ := by
  have hentry : x.buffer.directory.get? o.name = some item := hv.entry
  have hlaid : LaidOut x.backend x.buffer.directory (s.store.arena x.buffer.arena) := h.laidOut hv.buffer
  rw [Buffer.contents_eq hlaid, Directory.contents, hentry, Option.bind_some, Item.tensor, hv.shape]
  rfl

end Views

/-! ## The invariant -/

namespace Marked

/-- the same handles, in a session that extends the one before -/
theorem mono (h : s.Marked origins) (hext : s'.Extends s) (hsame : s'.handles = s.handles) : s'.Marked origins where
  length := hsame ▸ h.length
  refers k o t ho ht := (h.refers k o t ho (hsame ▸ ht)).of_extends hext

/-- one more handle -/
theorem concat (h : s.Marked origins) (hext : s'.Extends s) (hmore : s'.handles = s.handles ++ [t]) {o : Option Origin}
    (ht : s'.Refers t o) : s'.Marked (origins ++ [o]) where
  length := by rw [hmore, List.length_append, List.length_append, h.length]; rfl
  refers k o' t' ho' ht' := by
    rw [hmore] at ht'
    rcases getElem?_concat_eq_some.1 ho' with ho' | ⟨rfl, rfl⟩
    · rcases getElem?_concat_eq_some.1 ht' with ht' | ⟨rfl, -⟩
      · exact (h.refers k o' t' ho' ht').of_extends hext
      · -- a position behind all origins has none
        rw [← h.length, List.getElem?_eq_none le_rfl] at ho'
        cases ho'
    · rcases getElem?_concat_eq_some.1 ht' with ht' | ⟨-, rfl⟩
      · rw [h.length, List.getElem?_eq_none le_rfl] at ht'
        cases ht'
      · exact ht

/-- a handle made another array -/
theorem set (h : s.Marked origins) (hext : s'.Extends s) {k : Nat} (hset : s'.handles = s.handles.set k t)
    {o : Option Origin} (ht : s'.Refers t o) : s'.Marked (origins.set k o) where
  length := by rw [hset, List.length_set, List.length_set, h.length]
  refers j o' t' ho' ht' := by
    rw [hset] at ht'
    rcases getElem?_set_eq_some ho' with ⟨rfl, rfl⟩ | ⟨hj, ho'⟩
    · rcases getElem?_set_eq_some ht' with ⟨-, rfl⟩ | ⟨hj, -⟩
      · exact ht
      · exact absurd rfl hj
    · rcases getElem?_set_eq_some ht' with ⟨rfl, -⟩ | ⟨-, ht'⟩
      · exact absurd rfl hj
      · exact (h.refers j o' t' ho' ht').of_extends hext

/-- every handle has an origin that it goes with -/
theorem exists_origin (h : s.Marked origins) {k : Nat} (ht : s.handles[k]? = some t) :
    ∃ o, origins[k]? = some o ∧ s.Refers t o := by
  obtain ⟨hk, -⟩ := List.getElem?_eq_some_iff.1 ht
  have ho := List.getElem?_eq_getElem (l := origins) (h.length ▸ hk)
  exact ⟨_, ho, h.refers k _ t ho ht⟩

end Marked

/-- what an operation does to handles and origins: nothing, one more of each, a handle made the view of an item, or a
handle written through -/
inductive HandlesNext (s s' : Session) (a : Action δ) : Prop
  | same (horigins : ∀ before, a.origins before = before) (hhandles : s'.handles = s.handles)
  | more {o : Option Origin} {t : Tensor} (horigins : ∀ before, a.origins before = before ++ [o])
      (hhandles : s'.handles = s.handles ++ [t]) (ht : s'.Refers t o)
  | bound {k : Nat} {o : Origin} {t : Tensor} (htarget : a.target? = some k)
      (horigins : ∀ before, a.origins before = before.set k (some o)) (hhandles : s'.handles = s.handles.set k t)
      (ht : s'.Refers t (some o))
  | written {k : Nat} {t t' : Tensor} (htarget : a.target? = some k) (horigins : ∀ before, a.origins before = before)
      (ht : s.handles[k]? = some t) (hhandles : s'.handles = s.handles.set k t')
      (hkeeps : ∀ o, s.Refers t o → s'.Refers t' o)

variable [Device δ] [LawfulDevice δ]

/-- a view that is written through stays the view, and an array that owns its elements owns the new ones -/
theorem Refers.update {store : Store} {t' : Tensor} {change : Rewrite} (hext : s'.Extends s)
    (hup : t.update s.store change.apply = .ok (store, t')) {o : Option Origin} (hr : s.Refers t o) :
    s'.Refers t' o := by
  obtain ⟨shape, storage⟩ := t
  cases storage with
  | owned data =>
    simp only [Tensor.update, bind_eq_ok, pure_eq_ok, Prod.mk.injEq] at hup
    obtain ⟨ys, -, -, rfl⟩ := hup
    cases o with
    | none => exact ⟨ys, rfl⟩
    | some o =>
      obtain ⟨x, item, hv⟩ := hr
      have hwindow := congrArg Tensor.storage hv.window
      cases hwindow
  | view w =>
    simp only [Tensor.update, bind_eq_ok, pure_eq_ok, Prod.mk.injEq] at hup
    obtain ⟨_, -, -, rfl⟩ := hup
    exact hr.of_extends hext

theorem handles_next (h : s.WellFormed) {a : Action δ} (hn : s.next a = some s') : HandlesNext s s' a := by
  obtain ⟨-, hext⟩ := wellFormed_next h hn
  cases a with
  | create b =>
    cases hn
    exact .same (fun _ => rfl) rfl
  | own shape data =>
    simp only [next, bind_eq_some, toOption_eq_some, Option.pure_def, Option.some.injEq] at hn
    obtain ⟨t, ht, rfl⟩ := hn
    obtain ⟨_, -, ht⟩ := bind_eq_ok.1 ht
    obtain ⟨-, rfl⟩ := ite_pure_eq_ok.1 ht
    exact .more (fun _ => rfl) rfl ⟨data, rfl⟩
  | copy handle =>
    simp only [next, bind_eq_some, toOption_eq_some, Option.pure_def, Option.some.injEq] at hn
    obtain ⟨t, -, u, hu, rfl⟩ := hn
    simp only [Tensor.copy, bind_eq_ok, pure_eq_ok] at hu
    obtain ⟨xs, -, rfl⟩ := hu
    exact .more (fun _ => rfl) rfl ⟨xs, rfl⟩
  | insert buffer name handle =>
    simp only [next, bind_eq_some, toOption_eq_some, Option.pure_def, Option.some.injEq] at hn
    obtain ⟨x, hx, t, -, ⟨store, buf, t'⟩, hins, rfl⟩ := hn
    obtain ⟨header, xs, -, -, -, -, -, hr⟩ := Buffer.insert_eq_ok.1 hins
    cases hr
    have hi := (List.getElem?_eq_some_iff.1 hx).1
    exact .bound rfl (fun _ => rfl) rfl ⟨⟨x.backend, _⟩, _, List.getElem?_set_self hi, Directory.get?_put_self _ _ _,
      t.shape.ofExtents?_extents, rfl⟩
  | view buffer name kind =>
    simp only [next, bind_eq_some, toOption_eq_some, Option.pure_def, Option.some.injEq] at hn
    obtain ⟨x, hx, t, hv, rfl⟩ := hn
    obtain ⟨item, shape, hi, rfl, hshape, rfl⟩ := (Buffer.view_eq_ok (h.laidOut hx)).1 hv
    exact .more (fun _ => rfl) rfl ⟨x, item, hx, hi, hshape, rfl⟩
  | write handle change =>
    simp only [next, bind_eq_some, toOption_eq_some, Option.pure_def, Option.some.injEq] at hn
    obtain ⟨t, ht, ⟨store, t'⟩, hup, rfl⟩ := hn
    exact .written rfl (fun _ => rfl) ht rfl fun o hr => hr.update hext hup
  | append buffer count =>
    simp only [next, bind_eq_some, Option.pure_def, Option.some.injEq] at hn
    obtain ⟨x, -, _, -, rfl⟩ := hn
    exact .same (fun _ => rfl) rfl
  | load buffer bytes =>
    simp only [next, bind_eq_some] at hn
    obtain ⟨⟨b, buf⟩, -, hn⟩ := hn
    cases b with
    | cpu => cases hn
    | gpu =>
      simp only [bind_eq_some, Option.pure_def, Option.some.injEq] at hn
      obtain ⟨store, -, rfl⟩ := hn
      exact .same (fun _ => rfl) rfl
  | runCpu buffer d description n =>
    simp only [next, bind_eq_some] at hn
    obtain ⟨⟨b, buf⟩, -, hn⟩ := hn
    cases b with
    | cpu =>
      simp only [bind_eq_some, Option.pure_def, Option.some.injEq] at hn
      obtain ⟨c, -, rfl⟩ := hn
      exact .same (fun _ => rfl) rfl
    | gpu => cases hn
  | runGpu buffer e c n =>
    simp only [next, bind_eq_some] at hn
    obtain ⟨⟨b, buf⟩, -, hn⟩ := hn
    cases b with
    | cpu => cases hn
    | gpu =>
      cases hn
      exact .same (fun _ => rfl) rfl

/-- **One step.** After an operation that succeeds, handles go with their new origins. -/
theorem marked_next (h : s.WellFormed) (hm : s.Marked origins) {a : Action δ} (hn : s.next a = some s') :
    s'.Marked (a.origins origins) := by
  obtain ⟨-, hext⟩ := wellFormed_next h hn
  cases handles_next h hn with
  | same horigins hhandles =>
    rw [horigins]
    exact hm.mono hext hhandles
  | more horigins hhandles ht =>
    rw [horigins]
    exact hm.concat hext hhandles ht
  | bound _ horigins hhandles ht =>
    rw [horigins]
    exact hm.set hext hhandles ht
  | written _ horigins ht hhandles hkeeps =>
    obtain ⟨o, ho, hr⟩ := hm.exists_origin ht
    obtain ⟨hk, rfl⟩ := List.getElem?_eq_some_iff.1 ho
    have hset := hm.set hext hhandles (hkeeps _ hr)
    rw [List.set_getElem_self] at hset
    rw [horigins]
    exact hset

/-- **Runs.** So they do after every run. -/
theorem marked_run {x : Tracked} (h : x.session.WellFormed) (hm : x.session.Marked x.origins)
    (actions : List (Action δ)) : (x.run actions).session.Marked (x.run actions).origins := by
  induction actions generalizing x with
  | nil => exact hm
  | cons a actions ih =>
    change ((x.step a).run actions).session.Marked ((x.step a).run actions).origins
    apply ih
    · rw [x.session_step]
      exact (wellFormed_step h a).1
    · unfold Tracked.step
      cases hn : x.session.next a with
      | none => exact hm
      | some s' => exact marked_next h hm hn

/-- an operation that is not aimed at a handle leaves it as it is -/
theorem getElem?_next (h : s.WellFormed) {a : Action δ} (hn : s.next a = some s') {k : Nat}
    (ha : a.target? ≠ some k) (ht : s.handles[k]? = some t) : s'.handles[k]? = some t := by
  have hset {j : Nat} {u : Tensor} (htarget : a.target? = some j) : (s.handles.set j u)[k]? = some t := by
    rw [List.getElem?_set_ne ?_]
    · exact ht
    · rintro rfl
      exact ha htarget
  cases handles_next h hn with
  | same _ hhandles => exact hhandles ▸ ht
  | more _ hhandles _ => exact hhandles ▸ getElem?_concat_eq_some.2 (.inl ht)
  | bound htarget _ hhandles _ => exact hhandles ▸ hset htarget
  | written htarget _ _ hhandles _ => exact hhandles ▸ hset htarget

/-- so a handle outlives every run in which what is aimed at it fails -/
theorem getElem?_run (h : s.WellFormed) {k : Nat} (ht : s.handles[k]? = some t) {later : List (Action δ)}
    (hlater : ∀ before a after, later = before ++ a :: after → a.target? = some k → (s.run before).next a = none) :
    (s.run later).handles[k]? = some t := by
  induction later generalizing s with
  | nil => exact ht
  | cons a later ih =>
    have hstep : (s.step a).handles[k]? = some t := by
      unfold step
      cases hn : s.next a with
      | none => exact ht
      | some s' =>
        apply getElem?_next h hn ?_ ht
        intro ha
        have hnone : s.next a = none := hlater [] a later rfl ha
        rw [hnone] at hn
        cases hn
    apply ih (wellFormed_step h a).1 hstep
    intro before a' after heq
    exact hlater (a :: before) a' after (congrArg (a :: ·) heq)

/-! ## Writes -/

omit [LawfulDevice δ] in
/-- a handle writes what a change makes of its item -/
theorem next_write (h : s.WellFormed) {k : Nat} (ht : s.handles[k]? = some t) (hv : s.Views o t x item)
    (change : Rewrite) : s.next (.write k change : Action δ) =
      match change.apply (item.elements x.backend (s.store.arena x.arena)) with
      | .ok ys =>
        some ⟨s.store.put x.arena ((s.store.arena x.arena).put (item.bodyWord x.backend) (ys.map Single.bits)),
          s.buffers, s.handles⟩
      | .error _ => none := by
  have hset : s.handles.set k t = s.handles := by
    obtain ⟨hk, rfl⟩ := List.getElem?_eq_some_iff.1 ht
    exact List.set_getElem_self hk
  have hlaid : LaidOut x.backend x.buffer.directory (s.store.arena x.buffer.arena) := h.laidOut hv.buffer
  have hup := Buffer.update_handle hlaid hv.entry t.shape change
  rw [← hv.window] at hup
  have hnext : s.next (.write k change : Action δ) = (t.update s.store change.apply).toOption.bind
      fun r => some ⟨r.1, s.buffers, s.handles.set k r.2⟩ := by
    simp only [next, ht]
    rfl
  rw [hnext, hup]
  change _ = match change.apply (item.elements x.backend (s.store.arena x.buffer.arena)) with
    | .ok ys => _
    | .error _ => _
  cases change.apply (item.elements x.backend (s.store.arena x.buffer.arena)) with
  | error f => rfl
  | ok ys =>
    simp only [Except.toOption, Option.bind_some, hset]
    rfl

/-- where the elements of one item are other ones, those of every other item are as before -/
theorem Views.data_of_overwritten (h : s.WellFormed) (h' : s'.WellFormed) (hbuffers : s'.buffers = s.buffers)
    (hv : s.Views o t x item) {ys : List Single} (hover : x.buffer.Overwritten item s.store s'.store ys) {u : Tensor}
    {o' : Origin} {x' : AnyBuffer} {item' : Item} (hv' : s.Views o' u x' item') :
    u.data s'.store = if o' = o then .ok ys else u.data s.store := by
  have hviews : s'.Views o' u x' item' := ⟨hbuffers ▸ hv'.buffer, hv'.entry, hv'.shape, hv'.window⟩
  rw [hviews.data h', hv'.data h]
  split_ifs with ho
  · subst ho
    cases hv.buffer.symm.trans hv'.buffer
    cases hv.entry.symm.trans hv'.entry
    exact congrArg _ hover.elements
  · congr 1
    by_cases hbuffer : o'.buffer = o.buffer
    · -- another name of the same buffer: its words are apart from those that were written
      have hname : o'.name ≠ o.name := by
        intro hname
        obtain ⟨i, name⟩ := o
        obtain ⟨i', name'⟩ := o'
        cases hbuffer
        cases hname
        exact ho rfl
      have hx : s.buffers[o.buffer]? = some x' := hbuffer ▸ hv'.buffer
      cases hv.buffer.symm.trans hx
      have hapart := (h.laidOut hx).body_apart hname hv'.entry hv.entry
      have hhead := item.bodyWord_eq x.backend
      refine Item.elements_congr fun j hj hj' => hover.words j ?_
      rw [Item.endWord]
      omega
    · have hne : x'.arena ≠ x.arena := by
        rw [h.placed hv'.buffer, h.placed hv.buffer]
        exact fun heq => hbuffer (congrArg ArenaId.index heq)
      have hsame : s'.store.arena x'.arena = s.store.arena x'.arena := hover.arenas x'.arena hne
      rw [hsame]

/-- a handle and its item: the name is viewed as this very handle, and both hold the same numbers. A write through the
handle replaces these numbers and no other word; what is read afterwards through another handle of the item are the new
ones, and through any other handle the old ones -/
structure Aliases (δ : Type) [Device δ] (x : Tracked) (k : Nat) (t : Tensor) (o : Origin) (y : AnyBuffer)
    (item : Item) (xs : List Single) : Prop where
  buffer : x.session.buffers[o.buffer]? = some y
  entry : y.directory.get? o.name = some item
  viewed : y.buffer.view x.session.store o.name item.kind = .ok t
  contents : y.buffer.contents x.session.store o.name = some ⟨t.shape, .owned xs⟩
  data : t.data x.session.store = .ok xs
  written : ∀ (change : Rewrite) ys, change.apply xs = .ok ys → ∃ store,
    x.session.next (.write k change : Action δ) = some ⟨store, x.session.buffers, x.session.handles⟩ ∧
      y.buffer.Overwritten item x.session.store store ys ∧
      ∀ (j : Nat) (u : Tensor) (o' : Option Origin), x.session.handles[j]? = some u → x.origins[j]? = some o' →
        u.data store = if o' = some o then .ok ys else u.data x.session.store
  refused : ∀ (change : Rewrite) f, change.apply xs = .error f →
    x.session.next (.write k change : Action δ) = none

theorem Views.aliases {x : Tracked} (h : x.session.WellFormed) (hm : x.session.Marked x.origins) {k : Nat}
    (ht : x.session.handles[k]? = some t) {y : AnyBuffer} (hv : x.session.Views o t y item) :
    Aliases δ x k t o y item (item.elements y.backend (x.session.store.arena y.arena)) := by
  refine ⟨hv.buffer, hv.entry, hv.viewed h, hv.contents h, hv.data h, ?_, ?_⟩
  · intro change ys hys
    have hnext := next_write (δ := δ) h ht hv change
    simp only [hys] at hnext
    have hlen : ys.length = item.count :=
      (change.keeps hys).trans ((h.laidOut hv.buffer).stored hv.entry).length_elements
    have hover : y.buffer.Overwritten item x.session.store _ ys :=
      Buffer.overwritten_put (h.laidOut hv.buffer) (h.lt_size hv.buffer) hv.entry hlen
    refine ⟨_, hnext, hover, ?_⟩
    intro j u o' hu ho'
    have hr := hm.refers j o' u ho' hu
    cases o' with
    | none =>
      obtain ⟨data, hdata⟩ := hr
      simp only [reduceCtorEq, if_false, Tensor.data, hdata]
    | some o' =>
      obtain ⟨y', item', hv'⟩ := hr
      have hread := hv.data_of_overwritten h (wellFormed_next h hnext).1 rfl hover hv'
      simpa only [Option.some.injEq] using hread
  · intro change f hf
    have hnext := next_write (δ := δ) h ht hv change
    simp only [hf] at hnext
    exact hnext

omit [LawfulDevice δ] in
/-- a write to an array that owns its elements does not touch any arena -/
theorem store_of_next_write {k : Nat} (ht : s.handles[k]? = some t) {data : List Single}
    (hdata : t.storage = .owned data) {change : Rewrite} (hn : s.next (.write k change : Action δ) = some s') :
    s'.store = s.store := by
  simp only [next, ht, bind_eq_some, toOption_eq_some, Option.pure_def, Option.some.injEq] at hn
  obtain ⟨_, rfl, ⟨store, t'⟩, hup, rfl⟩ := hn
  simp only [Tensor.update, hdata, bind_eq_ok, pure_eq_ok, Prod.mk.injEq] at hup
  obtain ⟨_, -, hstore, -⟩ := hup
  exact hstore.symm

/-- every handle can be read -/
theorem Refers.exists_data (h : s.WellFormed) {o : Option Origin} (hr : s.Refers t o) :
    ∃ xs, t.data s.store = .ok xs := by
  cases o with
  | none =>
    obtain ⟨data, hdata⟩ := hr
    exact ⟨data, by rw [Tensor.data, hdata]⟩
  | some o =>
    obtain ⟨x, item, hv⟩ := hr
    exact ⟨_, hv.data h⟩

omit [LawfulDevice δ] in
/-- a handle that can be read can be copied -/
theorem next_copy {k : Nat} (ht : s.handles[k]? = some t) {xs : List Single} (hxs : t.data s.store = .ok xs) :
    s.next (.copy k : Action δ) = some ⟨s.store, s.buffers, s.handles ++ [⟨t.shape, .owned xs⟩]⟩ := by
  have hcopy : (t.copy s.store).toOption = some ⟨t.shape, .owned xs⟩ := by
    rw [Tensor.copy, hxs]
    rfl
  simp only [next, ht, Option.bind_eq_bind, Option.bind_some, hcopy]
  rfl

/-- **Handles stand for one item.** Whatever was done before, a handle that was inserted or viewed is the view of the
item it was last inserted as or viewed from, and of no other (`Aliases`); any other handle owns its elements, and a
write to it touches no arena. An insertion that fails, whichever of its steps does, leaves the handle what it was, and so
does a window of another size that it is bound to. A copy has the numbers of the moment it was taken, and keeps them
through every run in which all that is aimed at the copy itself fails. -/
theorem handles_alias (actions : List (Action δ)) {k : Nat} {t : Tensor}
    (ht : (run .empty actions).handles[k]? = some t) :
    (Tracked.run .empty actions).session = run .empty actions ∧
    (∃ o, (Tracked.run .empty actions).origins[k]? = some o ∧ match o with
      | some o => ∃ x item xs, Aliases δ (Tracked.run .empty actions) k t o x item xs
      | none => (∃ xs, t.storage = .owned xs) ∧ ∀ change s', (run .empty actions).next (.write k change : Action δ) =
          some s' → s'.store = (run .empty actions).store) ∧
    (∀ (i : Nat) (b : Backend) (buf : Buffer b), (run .empty actions).buffers[i]? = some ⟨b, buf⟩ → ∀ name f after,
      Insertion.perform name ⟨(run .empty actions).store, buf, t⟩ = .error f after →
        after = ⟨(run .empty actions).store, buf, t⟩) ∧
    (∀ w, Tensor.rebind w t = if w.len = t.stored then .ok () { t with storage := .view w }
      else .error (.refused (.shapeMismatch "bind" (.window w.len t.extents))) t) ∧
    ∃ xs, t.data (run .empty actions).store = .ok xs ∧ ∃ s', (run .empty actions).next (.copy k : Action δ) = some s' ∧
      ∀ later : List (Action δ),
        (∀ before a after, later = before ++ a :: after → a.target? = some (run .empty actions).handles.length →
          (s'.run before).next a = none) →
        (s'.run later).handles[(run .empty actions).handles.length]? = some ⟨t.shape, .owned xs⟩ := by
  have hsession := Tracked.session_run .empty actions
  have hwf := (wellFormed_run (δ := δ) wellFormed_empty actions).1
  have hm := marked_run (x := .empty) wellFormed_empty ⟨rfl, fun k o t ho => nomatch ho⟩ actions
  have hmade := made_run (s := .empty) (by simp [empty]) actions t (List.mem_of_getElem? ht)
  have ht' : (Tracked.run .empty actions).session.handles[k]? = some t := hsession ▸ ht
  have hwf' : (Tracked.run .empty actions).session.WellFormed := hsession ▸ hwf
  obtain ⟨o, ho, hr⟩ := hm.exists_origin ht'
  have hr' : (run .empty actions).Refers t o := hsession ▸ hr
  obtain ⟨xs, hxs⟩ := hr'.exists_data hwf
  refine ⟨hsession, ⟨o, ho, ?_⟩, ?_, hmade.sound.rebind_eq, xs, hxs, _, next_copy ht hxs, ?_⟩
  · cases o with
    | some o =>
      obtain ⟨x, item, hv⟩ := hr
      exact ⟨x, item, _, hv.aliases hwf' hm ht'⟩
    | none =>
      obtain ⟨data, hdata⟩ := hr
      exact ⟨⟨data, hdata⟩, fun change s' hn => store_of_next_write ht hdata hn⟩
  · intro i b buf hx name f after hfail
    rw [Insertion.perform_eq (hwf.lt_size hx) hmade.sound hxs name] at hfail
    cases hins : buf.insert (run .empty actions).store name t with
    | ok r =>
      simp only [hins] at hfail
      cases hfail
    | error e =>
      simp only [hins] at hfail
      cases hfail
      rfl
  · intro later hlater
    have hcopied := wellFormed_next hwf (next_copy (δ := δ) ht hxs)
    exact getElem?_run hcopied.1 (getElem?_concat_eq_some.2 (.inr ⟨rfl, rfl⟩)) hlater

theorem length_of_reverse {xs ys : List Single} (h : Except.ok xs.reverse = (.ok ys : Except Fault (List Single))) :
    ys.length = xs.length := by
  cases h
  exact List.length_reverse

/-- a vector inserted on the host, viewed and copied; then it is inserted on a device, where the second insertion fails,
and written through the view that was left -/
def shared : List (Action HostDevice) :=
  [.create .cpu, .create .gpu, .own (.vector 2) [⟨0x3f800000⟩, ⟨0x40000000⟩], .insert 0 "v" 0, .view 0 "v" .vector,
    .copy 0, .insert 1 "w" 0, .insert 1 "w" 0, .write 1 ⟨fun xs => .ok xs.reverse, length_of_reverse⟩]

/-- the vector stands for `w` of the device, the view for `v` of the host, and the copy for nothing -/
theorem handles_alias_shared : (Tracked.run .empty shared).origins = [some ⟨1, "w"⟩, some ⟨0, "v"⟩, none] ∧
    ∃ (t : Tensor) (x : AnyBuffer) (item : Item), (run .empty shared).handles[1]? = some t ∧
      Aliases HostDevice (Tracked.run .empty shared) 1 t ⟨0, "v"⟩ x item [⟨0x40000000⟩, ⟨0x3f800000⟩] := by
  have horigins : (Tracked.run .empty shared).origins = [some ⟨1, "w"⟩, some ⟨0, "v"⟩, none] := by decide +kernel
  have hread : (run .empty shared).handles[1]?.bind (fun t => (t.data (run .empty shared).store).toOption) =
      some [⟨0x40000000⟩, ⟨0x3f800000⟩] := by decide +kernel
  obtain ⟨t, ht, hxs⟩ := Option.bind_eq_some_iff.1 hread
  obtain ⟨hsession, ⟨o, ho, hstands⟩, -⟩ := handles_alias shared ht
  rw [horigins] at ho
  cases ho
  obtain ⟨x, item, xs, halias⟩ := hstands
  have hdata := halias.data
  rw [hsession, toOption_eq_some.1 hxs] at hdata
  cases hdata
  exact ⟨horigins, t, x, item, ht, halias⟩

end Session

end ArrayEngine
