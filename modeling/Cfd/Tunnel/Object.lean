import Cfd.Tunnel.Clients

/-!
# One client object

What holds of an object whatever the others do. Its handles are in custody, each has been closed as
often as its record says, it has none before it holds the API table, and its destructor leaves none
behind the call of `close` (`Obj.Sound`). An object owes a release of the table from the success of
`api_table_init` to the call of `api_table_release`, and `ApiEffect` is what a step does to the table
in these terms.

`Obj.Sound.act` keeps all this, when the deleters that the step runs find the table; and an object
with an open handle owes a release, so that they do.
-/

set_option autoImplicit false

namespace Cfd.Tunnel.Session

open Cfd.Base

/-! ## Handles in custody, and closed as recorded -/

/-- Each handle has been closed once if its record says that its close was called, else never. -/
def Counted (s : Shared) (closes : List (HandleKind × Handle)) : Prop :=
  ∀ k x, closes.count (k, x) = if x < s.next k ∧ (s.handles k x).closing = true then 1 else 0

theorem Counted.same {s s' : Shared} {closes : List (HandleKind × Handle)} (hs : Counted s closes)
    (h : SameHandles s s') : Counted s' closes := by
  intro k x
  rw [h.next, h.handles]
  exact hs k x

/-- A new handle has not been closed. -/
theorem Counted.openHandle {s : Shared} {closes : List (HandleKind × Handle)}
    (hs : Counted s closes) (kind : HandleKind) (parent : Option Handle) :
    Counted (s.openHandle kind parent) closes := by
  intro k x
  have hrec := handles_setHandle s kind (s.next kind) { parent } k x
  change (s.openHandle kind parent).handles k x = _ at hrec
  have hnext : (s.openHandle kind parent).next k = if k = kind then s.next kind + 1 else s.next k :=
    Function.update_apply ..
  rw [hs, hrec, hnext]
  by_cases hk : k = kind
  · subst hk
    by_cases hx : x = s.next k
    · subst hx
      simp
    · have hlt : x < s.next k + 1 ↔ x < s.next k :=
        ⟨fun h => Nat.lt_of_le_of_ne (Nat.le_of_lt_succ h) hx, Nat.lt_succ_of_lt⟩
      simp [hx, hlt]
  · simp [hk]

/-- The deleter of an open handle, whose close has not been called, closes it once more. -/
theorem Counted.assign {s s' : Shared} {kind : HandleKind} {new : Option Handle} {p : AssignPc}
    {q : Option AssignPc} {closes : List (HandleKind × Handle)} (hs : Counted s closes)
    (h : assignStep s kind new p = some (s', q))
    (hlive : ∀ old, p = .call old → old < s.next kind ∧ (s.handles kind old).closing = false) :
    Counted s' (closes ++ p.closeCall kind) := by
  intro k x
  rw [List.count_append, hs]
  rcases assignStep_cases h with ⟨rfl, rfl, -⟩ | ⟨old, rfl, rfl, -⟩ | ⟨old, rfl, -, rfl⟩ |
    ⟨old, rfl, -, rfl, -⟩
  · rfl
  · rfl
  · rw [handles_setHandle]
    change _ + List.count (k, x) [(kind, old)] = if x < s.next k ∧ _ then 1 else 0
    by_cases heq : k = kind ∧ x = old
    · obtain ⟨rfl, rfl⟩ := heq
      simp [hlive x rfl]
    · have hother : List.count (k, x) [(kind, old)] = 0 :=
        List.count_eq_zero.mpr fun hmem => heq (Prod.mk.inj (List.mem_singleton.mp hmem))
      rw [if_neg heq, hother]
      rfl
  · rw [handles_setHandle]
    change _ + 0 = if x < s.next k ∧ _ then 1 else 0
    by_cases heq : k = kind ∧ x = old
    · obtain ⟨rfl, rfl⟩ := heq
      simp
    · rw [if_neg heq]
      rfl

/-- The handles of an object, where `grip` is what its position has of them. -/
structure Kept (s : Shared) (grip : HandleKind → Grip) (closes : List (HandleKind × Handle)) :
    Prop where
  custody : ∀ k, (s.custody (fun _ : Unit => grip) k).Sound
  counted : Counted s closes

theorem Kept.same {s s' : Shared} {grip : HandleKind → Grip} {closes : List (HandleKind × Handle)}
    (hs : Kept s grip closes) (h : SameHandles s s') : Kept s' grip closes where
  custody k := h.custody (fun _ : Unit => grip) k ▸ hs.custody k
  counted := hs.counted.same h

theorem Kept.live {s : Shared} {kind : HandleKind} {new : Option Handle} {p : AssignPc}
    {closes : List (HandleKind × Handle)} (hs : Kept s (assignGrip kind new (some p)) closes)
    {old : Handle} (hp : p = .call old) :
    old < s.next kind ∧ (s.handles kind old).closing = false := by
  subst hp
  exact ((hs.custody kind).full () old (if_pos rfl)).1

theorem update_unit (grip grip' : HandleKind → Grip) :
    Function.update (fun _ : Unit => grip) () grip' = fun _ => grip' :=
  funext fun _ => Function.update_self ..

/-! ## One step of `close` or `connect` -/

/-- A step of `close` keeps the handles. -/
theorem Kept.close {who : Closer} {s s' : Shared} {p : ClosePc} {q : Option ClosePc}
    {closes : List (HandleKind × Handle)} (hs : Kept s p.grip closes) (hp : p.Matched s)
    (h : closeStep who s p = some (s', q)) :
    Kept s' (q.elim (fun _ => .empty) ClosePc.grip) (closes ++ p.closeCall) where
  custody k := by
    have hstep := closeStep_custody (fun _ : Unit => p.grip) () h rfl k (hp k)
    rw [update_unit] at hstep
    exact (hs.custody k).step hstep
  counted := by
    rcases closeStep_cases h with ⟨kind, p₀, q₀, rfl, hassign, -⟩ | ⟨hreset, -, hsame⟩
    · exact hs.counted.assign hassign fun old heq => hs.live heq
    · rcases p.reset_or with ⟨kind, p₀, rfl⟩ | ⟨-, hnil⟩
      · exact absurd rfl (hreset kind p₀)
      · rw [hnil, List.append_nil]
        exact hs.counted.same hsame

/-- A step of `connect` keeps the handles. -/
theorem Kept.connect {s s' : Shared} {ok : Bool} {p : ConnectPc} {q : ConnectNext}
    {closes : List (HandleKind × Handle)} (hs : Kept s p.grip closes) (hp : p.Matched s)
    (h : connectStep s ok p = some (s', q)) : Kept s' q.grip (closes ++ p.closeCall) where
  custody k := by
    have hstep := connectStep_custody (fun _ : Unit => p.grip) () h rfl k (hp k)
    rw [update_unit] at hstep
    exact (hs.custody k).step hstep
  counted := by
    rcases connectStep_cases h with ⟨kind, raw, p₀, q₀, rfl, hassign, -⟩ |
      ⟨kind, parent, rfl, rfl, -⟩ | ⟨hstore, -, hsame⟩
    · exact hs.counted.assign hassign fun old heq => hs.live heq
    · change Counted _ (closes ++ [])
      rw [List.append_nil]
      exact hs.counted.openHandle kind parent
    · rcases p.store_or with ⟨kind, raw, p₀, rfl⟩ | ⟨-, hnil⟩
      · exact absurd rfl (hstore kind raw p₀)
      · rw [hnil, List.append_nil]
        exact hs.counted.same hsame

/-! ## One object -/

/-- In `connect`, before the table is held. -/
def ConnectPc.early : ConnectPc → Bool
  | .resetFlags | .apiInit => true
  | _ => false

/-- What an object has of its handles, outside the pointers. -/
def ObjPc.grip : ObjPc → HandleKind → Grip
  | .connecting p => p.grip
  | .closing p | .destroying (.close p) => p.grip
  | .destroying (.member kind p) => assignGrip kind none (some p)
  | _ => fun _ => .empty

/-- What an object is about to write over is what the pointer has; a member is null when its turn
comes. -/
def ObjPc.Matched (s : Shared) : ObjPc → Prop
  | .connecting p => p.Matched s
  | .closing p | .destroying (.close p) => p.Matched s
  | .destroying (.member _ p) => p = .read ∨ p = .write none
  | _ => True

/-- The pointers that an object has set to null. -/
def ObjPc.cleared : ObjPc → HandleKind → Bool
  | .closing p => p.cleared
  | .destroying (.close p) => p.cleared
  | .destroying _ | .gone => fun _ => true
  | _ => fun _ => false

/-- An object at this position owes a call of `api_table_release`, given `api_held_`. -/
def ObjPc.owes (held : Bool) : ObjPc → Bool
  | .holding => true
  | .destroying (.member _ _) | .gone => false
  | _ => held

def Obj.owes (o : Obj) : Bool := o.pc.owes o.shared.apiHeld

/-- An object by itself. -/
structure Obj.Sound (o : Obj) : Prop where
  kept : Kept o.shared o.pc.grip o.closes
  matched : o.pc.Matched o.shared
  cleared : ∀ k, o.pc.cleared k = true → o.shared.held k = none
  late : ∀ p, o.pc = .connecting p → p.early = false → o.shared.apiHeld = true
  opened : ∀ k, 0 < o.shared.next k → o.shared.apiHeld = true
  absent : o.pc = .absent → o.shared.apiHeld = false

/-- An object whose position has nothing has as much at another such position. -/
theorem Obj.Sound.goto {o : Obj} (ho : o.Sound) {pc : ObjPc} (hold : o.pc.grip = fun _ => .empty)
    (hnew : pc.grip = fun _ => .empty) (hmatched : pc.Matched o.shared)
    (hcleared : ∀ k, pc.cleared k = true → o.shared.held k = none)
    (hlate : ∀ p, pc = .connecting p → p.early = false → o.shared.apiHeld = true)
    (habsent : pc = .absent → o.shared.apiHeld = false) : Sound { o with pc } where
  kept := by
    have hkept := ho.kept
    rw [hold, ← hnew] at hkept
    exact hkept
  matched := hmatched
  cleared := hcleared
  late := hlate
  opened := ho.opened
  absent := habsent

/-- What a step of an object does to the table. -/
inductive ApiEffect (g : Api) (owes : Bool) : Api → Bool → Prop
  | same : ApiEffect g owes g owes
  | init (ok : Bool) : owes = false →
      ApiEffect g owes (apiTableInit g ok).1 (apiTableInit g ok).2
  | release : owes = true → ApiEffect g owes (apiTableRelease g) false

theorem objCloseStep_eq {table : Bool} {s : Shared} {p : ClosePc}
    (h : ∀ x ∈ p.closeCall, table = true) : objCloseStep table s p = closeStep .thread s p := by
  cases table with
  | true => rfl
  | false =>
    cases p with
    | reset kind p₀ =>
      cases p₀ with
      | call old => cases h _ (List.mem_singleton.mpr rfl)
      | read | write | drain => rfl
    | lock | test | shutdown | unlock => rfl

theorem objConnectStep_eq {table : Bool} {s : Shared} {ok : Bool} {p : ConnectPc}
    (h : ∀ x ∈ p.closeCall, table = true) : objConnectStep table s ok p = connectStep s ok p := by
  cases table with
  | true => rfl
  | false =>
    cases p with
    | store kind raw p₀ =>
      cases p₀ with
      | call old => cases h _ (List.mem_singleton.mpr rfl)
      | read | write | drain => rfl
    | resetFlags | apiInit | openHandle | openCall | loadCredential | resolve | setParam | start |
      startConfig | startCall | handshake => rfl

/-- A step of `close`, called from outside or from the destructor. -/
theorem Obj.Sound.inClose {o : Obj} (ho : o.Sound) {p : ClosePc} (hgrip : o.pc.grip = p.grip)
    (hp : p.Matched o.shared) (hcleared : ∀ k, p.cleared k = true → o.shared.held k = none)
    {s' : Shared} {q : Option ClosePc} (h : closeStep .thread o.shared p = some (s', q))
    {pc' : ObjPc}
    (hgrip' : pc'.grip = q.elim (fun _ => .empty) ClosePc.grip)
    (hp' : (∀ p', q = some p' → p'.Matched s') → pc'.Matched s')
    (hcleared' : ∀ k, pc'.cleared k = true → ∀ p', q = some p' → p'.cleared k = true)
    (hpc' : pc' ≠ .absent ∧ ∀ p', pc' ≠ .connecting p') :
    Sound ⟨s', pc', o.closes ++ p.closeCall⟩ := by
  obtain ⟨happ, hnext⟩ := closeStep_rest h
  have hkept := ho.kept
  rw [hgrip] at hkept
  refine ⟨?_, hp' fun p' heq => closeStep_matched (heq ▸ h), fun k hk => ?_, fun p' heq => ?_,
    fun k hk => ?_, fun heq => absurd heq hpc'.1⟩
  · rw [hgrip']
    exact hkept.close hp h
  · exact closeStep_cleared h (hcleared k) (hcleared' k hk)
  · exact absurd heq (hpc'.2 p')
  · change s'.apiHeld = true
    rw [happ]
    exact ho.opened k (hnext ▸ hk)

theorem connectStep_apiHeld {s s' : Shared} {ok : Bool} {p : ConnectPc} {q : ConnectNext}
    (hinit : p ≠ .apiInit) (h : connectStep s ok p = some (s', q)) :
    s'.apiHeld = s.apiHeld := by
  cases p with
  | apiInit => exact absurd rfl hinit
  | store kind raw p₀ =>
    obtain ⟨q₀, hassign, -⟩ := connectStep_store h
    exact (assignStep_rest hassign).1
  | openCall kind parent =>
    simp only [connectStep] at h
    split at h <;> cases h <;> rfl
  | startCall x config =>
    cases x with
    | none =>
      cases h
      rfl
    | some x =>
      cases config with
      | none =>
        cases h
        rfl
      | some config =>
        simp only [connectStep] at h
        split at h <;> cases h <;> rfl
  | resetFlags | openHandle | loadCredential | resolve | setParam | start | startConfig |
    handshake =>
    cases h
    rfl

/-- A step of `connect`, but for `api_table_init`. -/
theorem Obj.Sound.inConnect {o : Obj} (ho : o.Sound) {p : ConnectPc} (hpc : o.pc = .connecting p)
    (hinit : p ≠ .apiInit) {s' : Shared} {ok : Bool} {q : ConnectNext}
    (h : connectStep o.shared ok p = some (s', q)) :
    Sound ⟨s', q.objPc, o.closes ++ p.closeCall⟩ := by
  have happ := connectStep_apiHeld hinit h
  have hkept := ho.kept
  have hmatched := ho.matched
  rw [hpc] at hkept hmatched
  -- before the table is held, `connect` only resets the flags
  have hheld : (p.early = true ∧ (∀ p', q = .goto p' → p'.early = true) ∧
      s'.next = o.shared.next) ∨ s'.apiHeld = true := by
    cases hearly : p.early with
    | false => exact Or.inr (happ.trans (ho.late p hpc hearly))
    | true =>
      cases p with
      | apiInit => exact absurd rfl hinit
      | resetFlags =>
        cases h
        refine Or.inl ⟨rfl, fun p' heq => ?_, rfl⟩
        cases heq
        rfl
      | openHandle | openCall | store | loadCredential | resolve | setParam | start | startConfig |
        startCall | handshake => cases hearly
  refine ⟨?_, ?_, fun k hk => ?_, fun p' heq hlate => ?_, fun k hk => ?_, fun heq => ?_⟩
  · have hnext := hkept.connect hmatched h
    cases q <;> exact hnext
  · cases q with
    | goto p' => exact connectStep_matched h
    | returned ok => trivial
  · cases q <;> cases hk
  · rcases hheld with ⟨-, hgoto, -⟩ | hheld
    · cases q with
      | goto p'' =>
        cases heq
        cases (hgoto p' rfl).symm.trans hlate
      | returned ok => cases heq
    · exact hheld
  · rcases hheld with ⟨-, -, hnext⟩ | hheld
    · exact happ.trans (ho.opened k (hnext ▸ hk))
    · exact hheld
  · cases q <;> cases heq

theorem objStep_connecting {g : Api} {s : Shared} {ok : Bool} {p : ConnectPc} (hp : p ≠ .apiInit) :
    objStep g s ok (.connecting p) =
      (objConnectStep g.gMsquic s ok p).map fun r => (g, r.1, r.2.objPc) := by
  cases p with
  | apiInit => exact absurd rfl hp
  | resetFlags | openHandle | openCall | store | loadCredential | resolve | setParam | start |
    startConfig | startCall | handshake => rfl

/-- A step of a member's destructor, whose member is null. -/
theorem memberStep_null {table : Bool} {s s' : Shared} {kind : HandleKind} {p : AssignPc}
    {q : Option AssignPc} (hp : p = .read ∨ p = .write none) (hheld : ∀ k, s.held k = none)
    (h : memberStep table s kind p = some (s', q)) :
    SameHandles s s' ∧ s'.apiHeld = s.apiHeld ∧ (q = some (.write none) ∨ q = none) := by
  have hassign : assignStep s kind none p = some (s', q) := by
    rcases hp with rfl | rfl <;> cases table <;> exact h
  rcases hp with rfl | rfl
  · cases hassign
    rw [hheld kind]
    exact ⟨⟨rfl, rfl, rfl⟩, rfl, Or.inl rfl⟩
  · cases hassign
    refine ⟨⟨?_, rfl, rfl⟩, rfl, Or.inr rfl⟩
    exact Function.update_eq_self_iff.mpr (hheld kind).symm

/-- A step of `api_table_init` in `connect`. -/
theorem Obj.Sound.step_apiInit {s s' : Shared} {closes : List (HandleKind × Handle)}
    (ho : Sound ⟨s, .connecting .apiInit, closes⟩) {g g' : Api} {pc' : ObjPc} {ok : Bool}
    (h : objStep g s ok (.connecting .apiInit) = some (g', s', pc')) :
    Sound ⟨s', pc', closes⟩ ∧ ApiEffect g s.apiHeld g' (pc'.owes s'.apiHeld) := by
  simp only [objStep] at h
  split at h
  next hheld =>
    cases h
    exact ⟨ho.goto rfl rfl nofun nofun (fun _ _ _ => hheld) nofun, .same⟩
  next hheld =>
    cases h
    have hfree : s.apiHeld = false := Bool.eq_false_iff.mpr hheld
    have howes : ObjPc.owes s.apiHeld (if (apiTableInit g ok).2 then .holding else .idle) =
        (apiTableInit g ok).2 := by
      cases (apiTableInit g ok).2 with
      | true => rfl
      | false => exact hfree
    rw [howes]
    refine ⟨?_, .init ok hfree⟩
    cases (apiTableInit g ok).2 with
    | true => exact ho.goto rfl rfl trivial nofun nofun nofun
    | false => exact ho.goto rfl rfl trivial nofun nofun nofun

/-- A step of the destruction of a member. -/
theorem Obj.Sound.step_member {s s' : Shared} {closes : List (HandleKind × Handle)}
    {kind : HandleKind} {p : AssignPc} {q : Option AssignPc} {table : Bool}
    (ho : Sound ⟨s, .destroying (.member kind p), closes⟩)
    (h : memberStep table s kind p = some (s', q)) {pc' : ObjPc}
    (hpc' : pc' = q.elim kind.afterMember fun p => .destroying (.member kind p)) :
    Sound ⟨s', pc', closes ++ p.closeCall kind⟩ ∧ pc'.owes s'.apiHeld = false := by
  obtain ⟨hsame, happ, hq⟩ := memberStep_null ho.matched (fun k => ho.cleared k rfl) h
  have hcall : p.closeCall kind = [] := by
    rcases ho.matched with rfl | rfl <;> rfl
  have hnone : assignGrip kind none (some p) = fun _ => .empty := by
    rcases ho.matched with rfl | rfl <;> exact funext fun k => ite_self _
  have hkept : Kept s' (fun _ => .empty) closes := by
    have hold := ho.kept
    change Kept s (assignGrip kind none (some p)) closes at hold
    rw [hnone] at hold
    exact hold.same hsame
  have hgrip : pc'.grip = fun _ => .empty := by
    rcases hq with rfl | rfl
    · subst hpc'
      exact funext fun k => ite_self _
    · subst hpc'
      cases kind with
      | registration => rfl
      | configuration | connection => exact funext fun k => ite_self _
  have hmatched : pc'.Matched s' := by
    rcases hq with rfl | rfl
    · subst hpc'
      exact Or.inr rfl
    · subst hpc'
      cases kind with
      | registration => trivial
      | configuration | connection => exact Or.inl rfl
  rw [hcall, List.append_nil]
  refine ⟨⟨?_, hmatched, fun k _ => hsame.held ▸ ho.cleared k rfl, fun p' heq => ?_,
    fun k hk => happ.trans (ho.opened k (hsame.next ▸ hk)), fun heq => ?_⟩, ?_⟩
  · change Kept s' pc'.grip closes
    rw [hgrip]
    exact hkept
  · rcases hq with rfl | rfl
    · cases hpc'.symm.trans heq
    · cases kind <;> cases hpc'.symm.trans heq
  · rcases hq with rfl | rfl
    · cases hpc'.symm.trans heq
    · cases kind <;> cases hpc'.symm.trans heq
  · subst hpc'
    rcases hq with rfl | rfl
    · rfl
    · cases kind <;> rfl

/-- **A step inside an object**, when its deleters find the table. -/
theorem Obj.Sound.step {o : Obj} (ho : o.Sound) {g g' : Api} {s' : Shared} {pc' : ObjPc} {ok : Bool}
    (htable : ∀ x ∈ o.pc.closeCall, g.gMsquic = true)
    (h : objStep g o.shared ok o.pc = some (g', s', pc')) :
    Sound ⟨s', pc', o.closes ++ o.pc.closeCall⟩ ∧
      ApiEffect g (o.pc.owes o.shared.apiHeld) g' (pc'.owes s'.apiHeld) := by
  obtain ⟨s, pc, closes⟩ := o
  cases pc with
  | absent | idle | gone => cases h
  | holding =>
    cases h
    change Sound ⟨_, _, closes ++ []⟩ ∧ _
    rw [List.append_nil]
    exact ⟨⟨ho.kept.same ⟨rfl, rfl, rfl⟩, nofun, nofun, fun _ _ _ => rfl, fun _ _ => rfl, nofun⟩,
      .same⟩
  | connecting p =>
    by_cases hp : p = .apiInit
    · subst hp
      change Sound ⟨_, _, closes ++ []⟩ ∧ _
      rw [List.append_nil]
      exact ho.step_apiInit h
    · rw [objStep_connecting hp, objConnectStep_eq htable] at h
      obtain ⟨⟨s'', q⟩, hconnect, heq⟩ := Option.map_eq_some_iff.mp h
      cases heq
      have howes : q.objPc.owes s''.apiHeld = s.apiHeld := by
        rw [connectStep_apiHeld hp hconnect]
        cases q <;> rfl
      rw [howes]
      exact ⟨ho.inConnect rfl hp hconnect, .same⟩
  | closing p =>
    simp only [objStep, objCloseStep_eq htable] at h
    obtain ⟨⟨s'', q⟩, hclose, heq⟩ := Option.map_eq_some_iff.mp h
    cases heq
    have howes : (q.elim .idle .closing : ObjPc).owes s''.apiHeld = s.apiHeld := by
      rw [(closeStep_rest hclose).1]
      cases q <;> rfl
    rw [howes]
    refine ⟨ho.inClose rfl ho.matched ho.cleared hclose ?_ (fun hq => ?_)
      (fun k hk p' heq => ?_) ?_, .same⟩
    · cases q <;> rfl
    · cases q with
      | none => trivial
      | some p' => exact hq p' rfl
    · cases heq
      exact hk
    · cases q <;> exact ⟨nofun, nofun⟩
  | destroying p =>
    cases p with
    | close p =>
      simp only [objStep, objCloseStep_eq htable] at h
      obtain ⟨⟨s'', q⟩, hclose, heq⟩ := Option.map_eq_some_iff.mp h
      cases heq
      have howes : (ObjPc.destroying (q.elim .release .close)).owes s''.apiHeld = s.apiHeld := by
        rw [(closeStep_rest hclose).1]
        cases q <;> rfl
      rw [howes]
      refine ⟨ho.inClose rfl ho.matched ho.cleared hclose ?_ (fun hq => ?_) (fun k hk p' heq => ?_)
        ⟨nofun, nofun⟩, .same⟩
      · cases q <;> rfl
      · cases q with
        | none => trivial
        | some p' => exact hq p' rfl
      · cases heq
        exact hk
    | release =>
      cases h
      change Sound ⟨_, _, closes ++ []⟩ ∧ _
      rw [List.append_nil]
      refine ⟨ho.goto rfl (funext fun k => ite_self _) (Or.inl rfl) (fun k _ => ho.cleared k rfl)
        nofun nofun, ?_⟩
      split
      next hheld => exact .release hheld
      next hheld =>
        have howes : (ObjPc.destroying .release).owes s.apiHeld = false :=
          Bool.eq_false_iff.mpr hheld
        rw [howes]
        exact .same
    | member kind p =>
      obtain ⟨⟨s'', q⟩, hmember, heq⟩ := Option.map_eq_some_iff.mp h
      cases heq
      obtain ⟨hsound, howes⟩ := ho.step_member hmember rfl
      refine ⟨hsound, ?_⟩
      change ApiEffect g false g (ObjPc.owes s''.apiHeld (q.elim _ _))
      rw [howes]
      exact .same

/-- msquic's part leaves an object as it is. -/
theorem Obj.Sound.event {o : Obj} (ho : o.Sound) {s' : Shared} (hsame : SameHandles o.shared s')
    (happ : s'.apiHeld = o.shared.apiHeld) : Sound { o with shared := s' } where
  kept := ho.kept.same hsame
  matched := by
    obtain ⟨s, pc, closes⟩ := o
    have hold := ho.matched
    cases pc with
    | connecting p => exact fun kind raw old heq => hsame.held ▸ hold kind raw old heq
    | closing p => exact fun kind old heq => hsame.held ▸ hold kind old heq
    | destroying p =>
      cases p with
      | close p => exact fun kind old heq => hsame.held ▸ hold kind old heq
      | release => trivial
      | member kind p => exact hold
    | absent | idle | holding | gone => trivial
  cleared k hk := hsame.held ▸ ho.cleared k hk
  late p hp hlate := happ.trans (ho.late p hp hlate)
  opened k hk := happ.trans (ho.opened k (hsame.next ▸ hk))
  absent hpc := happ.trans (ho.absent hpc)

/-- **An action of an object**, when its deleters find the table. -/
theorem Obj.Sound.act {o o' : Obj} (ho : o.Sound) {g g' : Api} {a : ObjAction}
    (htable : ∀ x ∈ o.pc.closeCall, g.gMsquic = true) (h : o.act g a = some (g', o')) :
    o'.Sound ∧ ApiEffect g o.owes g' o'.owes := by
  cases a with
  | construct =>
    simp only [Obj.act] at h
    split at h <;> cases h
    next hpc =>
      refine ⟨ho.goto (hpc ▸ rfl) rfl trivial nofun nofun nofun, ?_⟩
      obtain ⟨s, pc, closes⟩ := o
      cases hpc
      exact .same
  | connect | close | destroy =>
    simp only [Obj.act] at h
    split at h <;> cases h
    next hpc =>
      obtain ⟨s, pc, closes⟩ := o
      cases hpc
      exact ⟨ho.goto rfl rfl nofun nofun nofun nofun, .same⟩
  | step ok =>
    obtain ⟨⟨g'', s', pc'⟩, hstep, heq⟩ := Option.map_eq_some_iff.mp h
    cases heq
    have hcalls : (if g.gMsquic = true then o.pc.closeCall else []) = o.pc.closeCall := by
      cases hcall : o.pc.closeCall with
      | nil => exact ite_self _
      | cons x xs => exact if_pos (htable x (hcall ▸ List.mem_cons_self ..))
    rw [hcalls]
    exact ho.step htable hstep
  | event x e =>
    obtain ⟨s', hdeliver, heq⟩ := Option.map_eq_some_iff.mp h
    cases heq
    obtain ⟨hsame, happ⟩ := deliver_same hdeliver
    refine ⟨ho.event hsame happ, ?_⟩
    change ApiEffect g _ g (o.pc.owes s'.apiHeld)
    rw [happ]
    exact .same
  | callback x =>
    obtain ⟨s', hcallback, heq⟩ := Option.map_eq_some_iff.mp h
    cases heq
    obtain ⟨hsame, happ⟩ := callbackStep_same hcallback
    refine ⟨ho.event hsame happ, ?_⟩
    change ApiEffect g _ g (o.pc.owes s'.apiHeld)
    rw [happ]
    exact .same

/-! ## What an object owes -/

/-- Behind the call of the release all handles are closed. -/
theorem Obj.Sound.all_closed {o : Obj} (ho : o.Sound) (hgrip : o.pc.grip = fun _ => .empty)
    (hcleared : o.pc.cleared = fun _ => true) {k : HandleKind} {x : Handle}
    (hlt : x < o.shared.next k) : (o.shared.handles k x).closed = true := by
  refine (ho.kept.custody k).all_ended (ho.cleared k ?_) (fun _ => ?_) hlt
  · rw [hcleared]
  · exact congrFun hgrip k

theorem Obj.Sound.grip_member {o : Obj} (ho : o.Sound) {kind : HandleKind} {p : AssignPc}
    (hpc : o.pc = .destroying (.member kind p)) : o.pc.grip = fun _ => .empty := by
  have hmatched := ho.matched
  rw [hpc] at hmatched ⊢
  rcases hmatched with rfl | rfl <;> exact funext fun k => ite_self _

/-- An object with an open handle owes a release. -/
theorem Obj.Sound.owes {o : Obj} (ho : o.Sound) {k : HandleKind} {x : Handle}
    (hlt : x < o.shared.next k) (hopen : (o.shared.handles k x).closed = false) :
    o.owes = true := by
  have happ := ho.opened k (Nat.zero_lt_of_lt hlt)
  cases hpc : o.pc with
  | holding =>
    rw [Obj.owes, hpc]
    rfl
  | gone =>
    have hclosed := ho.all_closed (hpc ▸ rfl) (hpc ▸ rfl) hlt
    cases hopen.symm.trans hclosed
  | destroying p =>
    cases p with
    | member kind p =>
      have hclosed := ho.all_closed (ho.grip_member hpc) (hpc ▸ rfl) hlt
      cases hopen.symm.trans hclosed
    | close | release =>
      rw [Obj.owes, hpc]
      exact happ
  | absent | idle | connecting | closing =>
    rw [Obj.owes, hpc]
    exact happ

theorem AssignPc.grip_closeCall {kind k : HandleKind} {new : Option Handle} {p : AssignPc}
    {x : Handle} (h : (k, x) ∈ p.closeCall kind) : assignGrip kind new (some p) k = .full x := by
  cases p with
  | call old =>
    obtain ⟨rfl, rfl⟩ := Prod.mk.inj (List.mem_singleton.mp h)
    exact if_pos rfl
  | read | write | drain => cases h

theorem ClosePc.grip_closeCall {p : ClosePc} {k : HandleKind} {x : Handle}
    (h : (k, x) ∈ p.closeCall) : p.grip k = .full x := by
  rcases p.reset_or with ⟨kind, p₀, rfl⟩ | ⟨-, hnil⟩
  · exact AssignPc.grip_closeCall h
  · rw [hnil] at h
    cases h

theorem ConnectPc.grip_closeCall {p : ConnectPc} {k : HandleKind} {x : Handle}
    (h : (k, x) ∈ p.closeCall) : p.grip k = .full x := by
  rcases p.store_or with ⟨kind, raw, p₀, rfl⟩ | ⟨-, hnil⟩
  · exact AssignPc.grip_closeCall h
  · rw [hnil] at h
    cases h

/-- A handle that is about to be closed is open. -/
theorem Obj.Sound.closeCall {o : Obj} (ho : o.Sound) {x : HandleKind × Handle}
    (h : x ∈ o.pc.closeCall) :
    x.2 < o.shared.next x.1 ∧ (o.shared.handles x.1 x.2).closed = false := by
  obtain ⟨k, x⟩ := x
  have hgrip : o.pc.grip k = .full x := by
    cases hpc : o.pc with
    | connecting p =>
      rw [hpc] at h
      exact ConnectPc.grip_closeCall h
    | closing p =>
      rw [hpc] at h
      exact ClosePc.grip_closeCall h
    | destroying p =>
      rw [hpc] at h
      cases p with
      | close p => exact ClosePc.grip_closeCall h
      | release => cases h
      | member kind p => exact AssignPc.grip_closeCall h
    | absent | idle | holding | gone =>
      rw [hpc] at h
      cases h
  have hlive := ((ho.kept.custody k).full () x hgrip).1
  refine ⟨hlive.1, Bool.eq_false_iff.mpr fun hclosed => ?_⟩
  have hclosing := (ho.kept.custody k).begun x hlive.1 hclosed
  cases hclosing.symm.trans hlive.2

theorem Obj.Sound.absent_initial : Obj.Sound ⟨.initial, .absent, []⟩ where
  kept := {
    custody := fun _ => ⟨nofun, nofun, nofun, nofun, nofun, nofun⟩
    counted := fun _ _ => rfl }
  matched := trivial
  cleared := nofun
  late := nofun
  opened := nofun
  absent _ := rfl

/-- No `connect` and no destructor is in progress. -/
def ObjPc.quiet : ObjPc → Bool
  | .connecting _ | .holding | .destroying _ => false
  | _ => true

/-- Constructed and not destroyed, with `api_held_` set. -/
def Obj.Holds (o : Obj) : Prop := o.pc ≠ .absent ∧ o.pc ≠ .gone ∧ o.shared.apiHeld = true

theorem Obj.Sound.owes_quiet {o : Obj} (ho : o.Sound) (hquiet : o.pc.quiet = true) :
    o.owes = true ↔ o.Holds := by
  cases hpc : o.pc with
  | absent =>
    have hfree := ho.absent hpc
    rw [Obj.owes, hpc]
    exact ⟨fun h => absurd (h.symm.trans hfree) nofun, fun h => absurd hpc h.1⟩
  | idle | closing =>
    rw [Obj.owes, hpc]
    exact ⟨fun h => ⟨hpc ▸ nofun, hpc ▸ nofun, h⟩, fun h => h.2.2⟩
  | gone =>
    rw [Obj.owes, hpc]
    exact ⟨nofun, fun h => absurd hpc h.2.1⟩
  | connecting | holding | destroying =>
    rw [hpc] at hquiet
    cases hquiet

end Cfd.Tunnel.Session
