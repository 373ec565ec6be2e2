import Cfd.Base.Custody
import Cfd.Tunnel.Lifecycle

/-!
# Custody of the handles

The three pointers of a client as cells, and its handles as things that have to be disposed of: what
a thread in `connect` or in `close` has of them, and that its steps are steps of custody. Two facts
about the pointers go with it, which hold whoever else moves: what a position of `close` has set to
null (`ClosePc.cleared`), and that a write comes with what was read (`Matched`), as long as nobody
else has written in between.
-/

set_option autoImplicit false

namespace Cfd.Tunnel.Session

open Cfd.Base

/-! ## What a position has -/

/-- What an assignment has of the handles of its kind. -/
def AssignPc.grip (new : Option Handle) : AssignPc → Grip
  | .read | .write _ => .given new
  | .call old => .full old
  | .drain old => .ending old

/-- What an assignment has, at a position or at its end. -/
def assignGrip (kind : HandleKind) (new : Option Handle) (p : Option AssignPc) (k : HandleKind) :
    Grip :=
  if k = kind then p.elim .empty (AssignPc.grip new) else .empty

/-- What `close` has. -/
def ClosePc.grip : ClosePc → HandleKind → Grip
  | .reset kind p => assignGrip kind none (some p)
  | _ => fun _ => .empty

/-- What `connect` has. -/
def ConnectPc.grip : ConnectPc → HandleKind → Grip
  | .store kind raw p => assignGrip kind (some raw) (some p)
  | _ => fun _ => .empty

/-- What `connect` has after a step. -/
def ConnectNext.grip : ConnectNext → HandleKind → Grip
  | .goto p => p.grip
  | .returned _ => fun _ => .empty

/-- The handle that an assignment is about to close. -/
def AssignPc.closeCall (kind : HandleKind) : AssignPc → List (HandleKind × Handle)
  | .call old => [(kind, old)]
  | _ => []

/-- The handle that `close` is about to close. -/
def ClosePc.closeCall : ClosePc → List (HandleKind × Handle)
  | .reset kind p => p.closeCall kind
  | _ => []

/-- The handle that `connect` is about to close. -/
def ConnectPc.closeCall : ConnectPc → List (HandleKind × Handle)
  | .store kind _ p => p.closeCall kind
  | _ => []

theorem assignGrip_none (kind : HandleKind) (new : Option Handle) :
    assignGrip kind new none = fun _ => .empty := by
  funext k
  exact ite_self _

theorem grip_afterReset (kind : HandleKind) : kind.afterReset.grip = fun _ => .empty := by
  cases kind with
  | registration => rfl
  | configuration | connection => exact funext fun k => ite_self _

theorem grip_afterStore (kind : HandleKind) : kind.afterStore.grip = fun _ => .empty := by
  cases kind <;> rfl

/-- Outside an assignment `close` has nothing, and closes nothing. -/
theorem ClosePc.reset_or (p : ClosePc) : (∃ kind p₀, p = .reset kind p₀) ∨
    p.grip = (fun _ => .empty) ∧ p.closeCall = [] := by
  cases p with
  | reset kind p₀ => exact Or.inl ⟨kind, p₀, rfl⟩
  | lock | test | shutdown | unlock => exact Or.inr ⟨rfl, rfl⟩

/-- Outside an assignment `connect` has nothing, and closes nothing. -/
theorem ConnectPc.store_or (p : ConnectPc) : (∃ kind raw p₀, p = .store kind raw p₀) ∨
    p.grip = (fun _ => .empty) ∧ p.closeCall = [] := by
  cases p with
  | store kind raw p₀ => exact Or.inl ⟨kind, raw, p₀, rfl⟩
  | resetFlags | apiInit | openHandle | openCall | loadCredential | resolve | setParam | start |
    startConfig | startCall | handshake => exact Or.inr ⟨rfl, rfl⟩

/-- The handles of a kind, with what each thread has of them. -/
def Shared.custody {ι : Type} (s : Shared) (grip : ι → HandleKind → Grip) (kind : HandleKind) :
    Custody ι where
  next := s.next kind
  cell := s.held kind
  grip i := grip i kind
  begun h := (s.handles kind h).closing
  ended h := (s.handles kind h).closed

/-- A step that leaves the pointers and the handles alone. -/
structure SameHandles (s s' : Shared) : Prop where
  held : s'.held = s.held
  next : s'.next = s.next
  handles : s'.handles = s.handles

theorem SameHandles.custody {ι : Type} {s s' : Shared} (h : SameHandles s s')
    (grip : ι → HandleKind → Grip) (kind : HandleKind) :
    s'.custody grip kind = s.custody grip kind := by
  rw [Shared.custody, Shared.custody, h.held, h.next, h.handles]

theorem handles_setHandle (s : Shared) (kind : HandleKind) (h : Handle) (r : HandleRec)
    (k : HandleKind) (x : Handle) :
    (s.setHandle kind h r).handles k x = if k = kind ∧ x = h then r else s.handles k x := by
  change Function.update s.handles kind (Function.update (s.handles kind) h r) k x = _
  by_cases hk : k = kind
  · subst hk
    rw [Function.update_self, Function.update_apply]
    simp only [true_and]
  · rw [Function.update_of_ne hk, if_neg fun hand => hk hand.1]

/-! ## The steps of custody -/

theorem custody_write {ι : Type} (s : Shared) (grip : ι → HandleKind → Grip) (kind : HandleKind)
    (new : Option Handle) (k : HandleKind) : (s.write kind new).custody grip k =
      { s.custody grip k with cell := if k = kind then new else s.held k } :=
  Custody.ext rfl (Function.update_apply s.held kind new k) rfl rfl rfl

/-- A call of a handle's close. -/
theorem custody_closing {ι : Type} (s : Shared) (grip : ι → HandleKind → Grip) (kind : HandleKind)
    (h : Handle) :
    (s.setHandle kind h { s.handles kind h with closing := true }).custody grip kind =
      { s.custody grip kind with
        begun := Function.update (s.custody grip kind).begun h true } := by
  refine Custody.ext rfl rfl rfl (funext fun x => ?_) (funext fun x => ?_)
  · change (Shared.handles _ kind x).closing =
      Function.update (fun x => (s.handles kind x).closing) h true x
    rw [handles_setHandle, Function.update_apply]
    simp only [true_and]
    split <;> rfl
  · change (Shared.handles _ kind x).closed = (s.handles kind x).closed
    rw [handles_setHandle]
    simp only [true_and]
    split
    next heq => rw [heq]
    next => rfl

/-- A return of a handle's close. -/
theorem custody_closed {ι : Type} (s : Shared) (grip : ι → HandleKind → Grip) (kind : HandleKind)
    (h : Handle) :
    (s.setHandle kind h { s.handles kind h with closed := true }).custody grip kind =
      { s.custody grip kind with
        ended := Function.update (s.custody grip kind).ended h true } := by
  refine Custody.ext rfl rfl rfl (funext fun x => ?_) (funext fun x => ?_)
  · change (Shared.handles _ kind x).closing = (s.handles kind x).closing
    rw [handles_setHandle]
    simp only [true_and]
    split
    next heq => rw [heq]
    next => rfl
  · change (Shared.handles _ kind x).closed =
      Function.update (fun x => (s.handles kind x).closed) h true x
    rw [handles_setHandle, Function.update_apply]
    simp only [true_and]
    split <;> rfl

theorem custody_setHandle_ne {ι : Type} (s : Shared) (grip : ι → HandleKind → Grip)
    {kind k : HandleKind} (hk : k ≠ kind) (h : Handle) (r : HandleRec) :
    (s.setHandle kind h r).custody grip k = s.custody grip k := by
  have hsame : (s.setHandle kind h r).handles k = s.handles k := Function.update_of_ne hk ..
  refine Custody.ext rfl rfl rfl (funext fun x => ?_) (funext fun x => ?_)
  · exact congrArg (fun f => (f x).closing) hsame
  · exact congrArg (fun f => (f x).closed) hsame

/-- An open of a handle. -/
theorem custody_openHandle {ι : Type} (s : Shared) (grip : ι → HandleKind → Grip)
    (kind : HandleKind) (parent : Option Handle) :
    (s.openHandle kind parent).custody grip kind =
      { s.custody grip kind with
        next := s.next kind + 1
        begun := Function.update (s.custody grip kind).begun (s.next kind) false
        ended := Function.update (s.custody grip kind).ended (s.next kind) false } := by
  have hsame : (s.openHandle kind parent).handles kind =
      Function.update (s.handles kind) (s.next kind) { parent } := Function.update_self ..
  refine Custody.ext (Function.update_self ..) rfl rfl (funext fun x => ?_) (funext fun x => ?_)
  · change ((s.openHandle kind parent).handles kind x).closing =
      Function.update (fun x => (s.handles kind x).closing) (s.next kind) false x
    rw [hsame, Function.update_apply, Function.update_apply]
    split <;> rfl
  · change ((s.openHandle kind parent).handles kind x).closed =
      Function.update (fun x => (s.handles kind x).closed) (s.next kind) false x
    rw [hsame, Function.update_apply, Function.update_apply]
    split <;> rfl

theorem custody_openHandle_ne {ι : Type} (s : Shared) (grip : ι → HandleKind → Grip)
    {kind k : HandleKind} (hk : k ≠ kind) (parent : Option Handle) :
    (s.openHandle kind parent).custody grip k = s.custody grip k := by
  have hsame : (s.openHandle kind parent).handles k = s.handles k := Function.update_of_ne hk ..
  refine Custody.ext (Function.update_of_ne hk ..) rfl rfl (funext fun x => ?_) (funext fun x => ?_)
  · exact congrArg (fun f => (f x).closing) hsame
  · exact congrArg (fun f => (f x).closed) hsame

section
variable {ι : Type} [DecidableEq ι] {s s' : Shared} {grip : ι → HandleKind → Grip} {i : ι}

/-- Custody, when one thread comes to have something else. -/
theorem custody_update (s : Shared) (grip : ι → HandleKind → Grip) (i : ι) (g : HandleKind → Grip)
    (k : HandleKind) : s.custody (Function.update grip i g) k =
      { s.custody grip k with grip := Function.update (s.custody grip k).grip i (g k) } := by
  refine Custody.ext rfl rfl (funext fun j => ?_) rfl rfl
  change Function.update grip i g j k = Function.update (fun j => grip j k) i (g k) j
  by_cases hji : j = i
  · subst hji
    rw [Function.update_self, Function.update_self]
  · rw [Function.update_of_ne hji, Function.update_of_ne hji]

/-- A thread that has what it had before. -/
theorem custody_update_same {g : HandleKind → Grip} {k : HandleKind} (hg : g k = grip i k) :
    s.custody (Function.update grip i g) k = s.custody grip k := by
  rw [custody_update]
  refine Custody.ext rfl rfl ?_ rfl rfl
  change Function.update (fun j => grip j k) i (g k) = fun j => grip j k
  rw [hg]
  exact Function.update_eq_self i fun j => grip j k

/-- **A step of an assignment is a step of custody**, when what it writes over is what it read. -/
theorem assignStep_custody {kind : HandleKind} {new : Option Handle} {p : AssignPc}
    {q : Option AssignPc} (h : assignStep s kind new p = some (s', q))
    (hi : grip i = assignGrip kind new (some p)) (k : HandleKind)
    (hwrite : k = kind → ∀ old, p = .write old → old = s.held k) :
    (s.custody grip k).Step
      (s'.custody (Function.update grip i (assignGrip kind new q)) k) := by
  by_cases hk : k = kind
  · subst hk
    have hself : (s.custody grip k).grip i = p.grip new := (congrFun hi k).trans (if_pos rfl)
    have hnext : assignGrip k new q k = q.elim .empty (AssignPc.grip new) := if_pos rfl
    rw [custody_update, hnext]
    rcases assignStep_cases h with ⟨rfl, rfl, rfl⟩ | ⟨old, rfl, rfl, rfl⟩ | ⟨old, rfl, rfl, rfl⟩ |
      ⟨old, rfl, rfl, rfl, -⟩
    · change (s'.custody grip k).Step
        { s'.custody grip k with grip := Function.update _ i (AssignPc.grip new .read) }
      rw [← hself, Function.update_eq_self]
      exact .stay
    · have htaken : (old.map AssignPc.call).elim .empty (AssignPc.grip new) = .given old := by
        cases old <;> rfl
      rw [custody_write, if_pos rfl, htaken, hwrite rfl old rfl]
      exact .swap i new hself
    · rw [custody_closing]
      exact .start i old hself
    · rw [custody_closed]
      exact .finish i old hself
  · have hgrip : assignGrip kind new q k = grip i k :=
      (if_neg hk).trans ((congrFun hi k).trans (if_neg hk)).symm
    rw [custody_update_same hgrip]
    rcases assignStep_cases h with ⟨-, rfl, -⟩ | ⟨old, -, rfl, -⟩ | ⟨old, -, -, rfl⟩ |
      ⟨old, -, -, rfl, -⟩
    · exact .stay
    · rw [custody_write, if_neg hk]
      exact .stay
    · rw [custody_setHandle_ne s grip hk]
      exact .stay
    · rw [custody_setHandle_ne s grip hk]
      exact .stay

/-- **An open is a step of custody**, when the thread that opens the handle has none. -/
theorem openHandle_custody (s : Shared) (kind : HandleKind) (parent : Option Handle)
    (hi : grip i = fun _ => .empty) (k : HandleKind) :
    (s.custody grip k).Step ((s.openHandle kind parent).custody
      (Function.update grip i (assignGrip kind (some (s.next kind)) (some .read))) k) := by
  by_cases hk : k = kind
  · subst hk
    have hself : (s.custody grip k).grip i = .empty := congrFun hi k
    have hnew : assignGrip k (some (s.next k)) (some .read) k = .full (s.next k) := if_pos rfl
    rw [custody_update, hnew, custody_openHandle]
    exact .acquire i hself
  · have hgrip : assignGrip kind (some (s.next kind)) (some .read) k = grip i k :=
      (if_neg hk).trans (congrFun hi k).symm
    rw [custody_update_same hgrip, custody_openHandle_ne s grip hk]
    exact .stay

end

/-! ## What a step of `close` or `connect` does to the handles -/

/-- **A step of `close`** is a step of an assignment, or leaves the handles alone. -/
theorem closeStep_cases {who : Closer} {s s' : Shared} {p : ClosePc} {q : Option ClosePc}
    (h : closeStep who s p = some (s', q)) :
    (∃ kind p₀ q₀, p = .reset kind p₀ ∧ assignStep s kind none p₀ = some (s', q₀) ∧
        q = some (q₀.elim kind.afterReset (.reset kind))) ∨
      ((∀ kind p₀, p ≠ .reset kind p₀) ∧ (∀ kind p₀, q = some (.reset kind p₀) → p₀ = .read) ∧
        SameHandles s s') := by
  cases p with
  | lock =>
    simp only [closeStep] at h
    split at h <;> cases h
    exact Or.inr ⟨by simp, by simp, ⟨rfl, rfl, rfl⟩⟩
  | test =>
    cases h
    refine Or.inr ⟨by simp, fun kind p₀ heq => ?_, ⟨rfl, rfl, rfl⟩⟩
    split at heq <;> cases heq
    rfl
  | shutdown =>
    cases h
    refine Or.inr ⟨by simp, fun kind p₀ heq => ?_, ⟨rfl, rfl, rfl⟩⟩
    cases heq
    rfl
  | reset kind p₀ =>
    obtain ⟨q₀, hassign, hq⟩ := closeStep_reset h
    exact Or.inl ⟨kind, p₀, q₀, rfl, hassign, hq⟩
  | unlock =>
    cases h
    exact Or.inr ⟨by simp, by simp, ⟨rfl, rfl, rfl⟩⟩

/-- Where an assignment begins, `close` has nothing. -/
theorem grip_reset {p : ClosePc} (h : ∀ kind p₀, p = .reset kind p₀ → p₀ = .read) :
    p.grip = fun _ => .empty := by
  rcases p.reset_or with ⟨kind, p₀, rfl⟩ | ⟨hgrip, -⟩
  · obtain rfl := h kind p₀ rfl
    exact funext fun k => ite_self _
  · exact hgrip

/-- **A step of `connect`** is a step of an assignment, an open, or leaves the handles alone. -/
theorem connectStep_cases {s s' : Shared} {ok : Bool} {p : ConnectPc} {q : ConnectNext}
    (h : connectStep s ok p = some (s', q)) :
    (∃ kind raw p₀ q₀, p = .store kind raw p₀ ∧ assignStep s kind (some raw) p₀ = some (s', q₀) ∧
        q = .goto (q₀.elim kind.afterStore (.store kind raw))) ∨
      (∃ kind parent, p = .openCall kind parent ∧ s' = s.openHandle kind parent ∧
        q = .goto (.store kind (s.next kind) .read)) ∨
      ((∀ kind raw p₀, p ≠ .store kind raw p₀) ∧ (∀ kind raw p₀, q ≠ .goto (.store kind raw p₀)) ∧
        SameHandles s s') := by
  cases p with
  | store kind raw p₀ =>
    obtain ⟨q₀, hassign, hq⟩ := connectStep_store h
    exact Or.inl ⟨kind, raw, p₀, q₀, rfl, hassign, hq⟩
  | openCall kind parent =>
    simp only [connectStep] at h
    split at h <;> cases h
    · exact Or.inr (Or.inl ⟨kind, parent, rfl, rfl, rfl⟩)
    · exact Or.inr (Or.inr ⟨by simp, by simp, ⟨rfl, rfl, rfl⟩⟩)
  | apiInit =>
    simp only [connectStep] at h
    split at h
    · cases h
      exact Or.inr (Or.inr ⟨by simp, by simp, ⟨rfl, rfl, rfl⟩⟩)
    · split at h <;> cases h <;> exact Or.inr (Or.inr ⟨by simp, by simp, ⟨rfl, rfl, rfl⟩⟩)
  | loadCredential | resolve =>
    cases h
    refine Or.inr (Or.inr ⟨by simp, fun kind raw p₀ heq => ?_, ⟨rfl, rfl, rfl⟩⟩)
    split at heq <;> cases heq
  | startCall x config =>
    refine Or.inr (Or.inr ?_)
    cases x with
    | none =>
      cases h
      exact ⟨by simp, by simp, ⟨rfl, rfl, rfl⟩⟩
    | some x =>
      cases config with
      | none =>
        cases h
        exact ⟨by simp, by simp, ⟨rfl, rfl, rfl⟩⟩
      | some config =>
        simp only [connectStep] at h
        split at h <;> cases h <;> exact ⟨by simp, by simp, ⟨rfl, rfl, rfl⟩⟩
  | resetFlags | openHandle | setParam | start | startConfig | handshake =>
    cases h
    exact Or.inr (Or.inr ⟨by simp, by simp, ⟨rfl, rfl, rfl⟩⟩)

theorem grip_next {q : ConnectNext} (h : ∀ kind raw p₀, q ≠ .goto (.store kind raw p₀)) :
    q.grip = fun _ => .empty := by
  cases q with
  | returned => rfl
  | goto p =>
    rcases p.store_or with ⟨kind, raw, p₀, rfl⟩ | ⟨hgrip, -⟩
    · exact absurd rfl (h kind raw p₀)
    · exact hgrip

section
variable {ι : Type} [DecidableEq ι] {s s' : Shared}

/-- What a thread has, when it has nothing before a step and nothing after it. -/
theorem same_custody (hsame : SameHandles s s') {grip : ι → HandleKind → Grip} {i : ι}
    {g : HandleKind → Grip} (hi : grip i = g) (k : HandleKind) :
    (s.custody grip k).Step (s'.custody (Function.update grip i g) k) := by
  rw [custody_update_same (congrFun hi k).symm, hsame.custody]
  exact .stay

/-- **A step of `close` is a step of custody**, when what it writes over is what it read. -/
theorem closeStep_custody (grip : ι → HandleKind → Grip) (i : ι) {who : Closer} {p : ClosePc}
    {q : Option ClosePc} (h : closeStep who s p = some (s', q)) (hi : grip i = p.grip)
    (k : HandleKind)    (hwrite : ∀ old, p = .reset k (.write old) → old = s.held k) :
    (s.custody grip k).Step
      (s'.custody (Function.update grip i (q.elim (fun _ => .empty) ClosePc.grip)) k) := by
  rcases closeStep_cases h with ⟨kind, p₀, q₀, rfl, hassign, rfl⟩ | ⟨hp, hq, hsame⟩
  · have hstep := assignStep_custody hassign hi k fun hk old heq => hwrite old (by rw [hk, heq])
    cases q₀ with
    | some p₁ => exact hstep
    | none =>
      rw [assignGrip_none] at hstep
      change (s.custody grip k).Step (s'.custody (Function.update grip i kind.afterReset.grip) k)
      rwa [grip_afterReset]
  · rw [grip_reset fun kind p₀ heq => absurd heq (hp kind p₀)] at hi
    have hnext : q.elim (fun _ => .empty) ClosePc.grip = fun _ => .empty := by
      cases q with
      | none => rfl
      | some p' => exact grip_reset fun kind p₀ heq => hq kind p₀ (congrArg some heq)
    rw [hnext]
    exact same_custody hsame hi k

/-- **A step of `connect` is a step of custody**, when what it writes over is what it read. -/
theorem connectStep_custody (grip : ι → HandleKind → Grip) (i : ι) {ok : Bool} {p : ConnectPc}
    {q : ConnectNext} (h : connectStep s ok p = some (s', q)) (hi : grip i = p.grip)
    (k : HandleKind)    (hwrite : ∀ raw old, p = .store k raw (.write old) → old = s.held k) :
    (s.custody grip k).Step (s'.custody (Function.update grip i q.grip) k) := by
  rcases connectStep_cases h with ⟨kind, raw, p₀, q₀, rfl, hassign, rfl⟩ |
    ⟨kind, parent, rfl, rfl, rfl⟩ | ⟨hp, hq, hsame⟩
  · have hstep := assignStep_custody hassign hi k fun hk old heq => hwrite raw old (by rw [hk, heq])
    cases q₀ with
    | some p₁ => exact hstep
    | none =>
      rw [assignGrip_none] at hstep
      change (s.custody grip k).Step (s'.custody (Function.update grip i kind.afterStore.grip) k)
      rwa [grip_afterStore]
  · exact openHandle_custody s kind parent hi k
  · rcases p.store_or with ⟨kind, raw, p₀, rfl⟩ | ⟨hgrip, -⟩
    · exact absurd rfl (hp kind raw p₀)
    · rw [hgrip] at hi
      rw [grip_next hq]
      exact same_custody hsame hi k

end

/-! ## Null pointers -/

/-- The order in which `close` resets. -/
def HandleKind.closeRank : HandleKind → Nat
  | .connection => 0
  | .configuration => 1
  | .registration => 2

/-- Behind the write. -/
def AssignPc.written : AssignPc → Bool
  | .read | .write _ => false
  | .call _ | .drain _ => true

/-- The pointers that `close` has set to null. -/
def ClosePc.cleared : ClosePc → HandleKind → Bool
  | .reset kind p, k => k.closeRank < kind.closeRank || (k = kind && p.written)
  | .unlock, _ => true
  | _, _ => false

/-- A step of an assignment, as far as the pointers go. -/
theorem assignStep_held {s s' : Shared} {kind : HandleKind} {new : Option Handle} {p : AssignPc}
    {q : Option AssignPc} (h : assignStep s kind new p = some (s', q)) :
    ((∃ old, p = .write old) ∧ s'.held = Function.update s.held kind new ∧
        q.elim true AssignPc.written = true) ∨
      (s'.held = s.held ∧ q.elim true AssignPc.written = p.written) := by
  rcases assignStep_cases h with ⟨rfl, rfl, rfl⟩ | ⟨old, rfl, rfl, rfl⟩ | ⟨old, rfl, rfl, rfl⟩ |
    ⟨old, rfl, rfl, rfl, -⟩
  · exact Or.inr ⟨rfl, rfl⟩
  · refine Or.inl ⟨⟨old, rfl⟩, rfl, ?_⟩
    cases old <;> rfl
  · exact Or.inr ⟨rfl, rfl⟩
  · exact Or.inr ⟨rfl, rfl⟩

/-- What is cleared where the reset of a handle leads to. -/
theorem cleared_reset {kind k : HandleKind} {q : Option AssignPc}
    (h : (q.elim kind.afterReset (.reset kind)).cleared k = true) :
    k.closeRank < kind.closeRank ∨ (k = kind ∧ q.elim true AssignPc.written = true) := by
  cases q with
  | none =>
    by_cases hk : k = kind
    · exact Or.inr ⟨hk, rfl⟩
    · refine Or.inl ?_
      cases kind <;> cases k <;> first | exact absurd rfl hk | decide | cases h
  | some p => simpa [ClosePc.cleared] using h

/-- **What a step of `close` leaves null**: what was so and is to stay so, and what it writes. -/
theorem closeStep_cleared {who : Closer} {s s' : Shared} {p : ClosePc} {q : Option ClosePc}
    (h : closeStep who s p = some (s', q)) {k : HandleKind}
    (hp : p.cleared k = true → s.held k = none) (hk : ∀ p', q = some p' → p'.cleared k = true) :
    s'.held k = none := by
  cases p with
  | lock =>
    simp only [closeStep] at h
    split at h <;> cases h
    cases hk _ rfl
  | test =>
    cases h
    have hcleared := hk _ rfl
    split at hcleared
    · cases k <;> cases hcleared
    · cases hcleared
  | shutdown =>
    cases h
    have hcleared := hk _ rfl
    cases k <;> cases hcleared
  | reset kind p₀ =>
    obtain ⟨q₀, hassign, rfl⟩ := closeStep_reset h
    have hcleared := cleared_reset (hk _ rfl)
    rcases assignStep_held hassign with ⟨-, hheld, -⟩ | ⟨hheld, hwritten⟩
    · rw [hheld]
      by_cases hkind : k = kind
      · subst hkind
        exact Function.update_self ..
      · have hrank := hcleared.resolve_right fun hand => hkind hand.1
        rw [Function.update_of_ne hkind]
        exact hp (by simp [ClosePc.cleared, hrank])
    · rw [hheld]
      refine hp ?_
      rcases hcleared with hrank | ⟨rfl, hq⟩
      · simp [ClosePc.cleared, hrank]
      · simp [ClosePc.cleared, ← hwritten, hq]
  | unlock =>
    cases h
    exact hp rfl

/-- What a step of `close` does to the pointers: it writes null to one, or nothing. -/
theorem closeStep_held {who : Closer} {s s' : Shared} {p : ClosePc} {q : Option ClosePc}
    (h : closeStep who s p = some (s', q)) :
    (∃ kind old, p = .reset kind (.write old) ∧ s'.held = Function.update s.held kind none) ∨
      s'.held = s.held := by
  rcases closeStep_cases h with ⟨kind, p₀, q₀, rfl, hassign, -⟩ | ⟨-, -, hsame⟩
  · rcases assignStep_held hassign with ⟨⟨old, rfl⟩, hheld, -⟩ | ⟨hheld, -⟩
    · exact Or.inl ⟨kind, old, rfl, hheld⟩
    · exact Or.inr hheld
  · exact Or.inr hsame.held

/-- What is null stays so. -/
theorem closeStep_null {who : Closer} {s s' : Shared} {p : ClosePc} {q : Option ClosePc}
    (h : closeStep who s p = some (s', q)) {k : HandleKind} (hk : s.held k = none) :
    s'.held k = none := by
  rcases closeStep_held h with ⟨kind, old, -, hheld⟩ | hheld
  · rw [hheld, Function.update_apply, hk]
    exact ite_self _
  · rw [hheld, hk]

/-- What a step of `connect` does to the pointers: it stores a handle, or nothing. -/
theorem connectStep_held {s s' : Shared} {ok : Bool} {p : ConnectPc} {q : ConnectNext}
    (h : connectStep s ok p = some (s', q)) :
    (∃ kind raw old, p = .store kind raw (.write old) ∧
        s'.held = Function.update s.held kind (some raw)) ∨ s'.held = s.held := by
  rcases connectStep_cases h with ⟨kind, raw, p₀, q₀, rfl, hassign, -⟩ |
    ⟨kind, parent, -, rfl, -⟩ | ⟨-, -, hsame⟩
  · rcases assignStep_held hassign with ⟨⟨old, rfl⟩, hheld, -⟩ | ⟨hheld, -⟩
    · exact Or.inl ⟨kind, raw, old, rfl, hheld⟩
    · exact Or.inr hheld
  · exact Or.inr rfl
  · exact Or.inr hsame.held

/-! ## What stays -/

theorem assignStep_rest {s s' : Shared} {kind : HandleKind} {new : Option Handle} {p : AssignPc}
    {q : Option AssignPc} (h : assignStep s kind new p = some (s', q)) :
    s'.apiHeld = s.apiHeld ∧ s'.next = s.next := by
  rcases assignStep_cases h with ⟨-, rfl, -⟩ | ⟨old, -, rfl, -⟩ | ⟨old, -, -, rfl⟩ |
    ⟨old, -, -, rfl, -⟩ <;> exact ⟨rfl, rfl⟩

theorem closeStep_rest {who : Closer} {s s' : Shared} {p : ClosePc} {q : Option ClosePc}
    (h : closeStep who s p = some (s', q)) : s'.apiHeld = s.apiHeld ∧ s'.next = s.next := by
  cases p with
  | lock =>
    simp only [closeStep] at h
    split at h <;> cases h
    exact ⟨rfl, rfl⟩
  | test | shutdown | unlock =>
    cases h
    exact ⟨rfl, rfl⟩
  | reset kind p₀ =>
    obtain ⟨q₀, hassign, -⟩ := closeStep_reset h
    exact assignStep_rest hassign

/-- Only the call of a handle's close marks it. -/
theorem closeStep_closing {who : Closer} {s s' : Shared} {p : ClosePc} {q : Option ClosePc}
    (h : closeStep who s p = some (s', q)) (k : HandleKind) (x : Handle) :
    p = .reset k (.call x) ∨ (s'.handles k x).closing = (s.handles k x).closing := by
  rcases closeStep_cases h with ⟨kind, p₀, q₀, rfl, hassign, -⟩ | ⟨-, -, hsame⟩
  · rcases assignStep_cases hassign with ⟨-, rfl, -⟩ | ⟨old, -, rfl, -⟩ | ⟨old, rfl, -, rfl⟩ |
      ⟨old, rfl, -, rfl, -⟩
    · exact Or.inr rfl
    · exact Or.inr rfl
    · rw [handles_setHandle]
      by_cases heq : k = kind ∧ x = old
      · obtain ⟨rfl, rfl⟩ := heq
        exact Or.inl rfl
      · rw [if_neg heq]
        exact Or.inr rfl
    · rw [handles_setHandle]
      refine Or.inr ?_
      split
      next heq => rw [heq.1, heq.2]
      next => rfl
  · exact Or.inr (by rw [hsame.handles])

theorem deliver_same {s s' : Shared} {x : Handle} {e : ConnEvent} (h : deliver s x e = some s') :
    SameHandles s s' ∧ s'.apiHeld = s.apiHeld := by
  simp only [deliver] at h
  split at h
  · cases h
  · split at h
    · split at h <;> cases h
      exact ⟨⟨rfl, rfl, rfl⟩, rfl⟩
    · cases h
      exact ⟨⟨rfl, rfl, rfl⟩, rfl⟩

theorem callbackStep_same {s s' : Shared} {x : Handle} (h : callbackStep s x = some s') :
    SameHandles s s' ∧ s'.apiHeld = s.apiHeld := by
  simp only [callbackStep] at h
  split at h
  · cases h
  · cases h
    exact ⟨⟨rfl, rfl, rfl⟩, rfl⟩
  · split at h <;> cases h <;> exact ⟨⟨rfl, rfl, rfl⟩, rfl⟩
  next copied _ =>
    cases h
    cases copied <;> exact ⟨⟨rfl, rfl, rfl⟩, rfl⟩

/-! ## Writes -/

/-- What `close` is about to write over is what the pointer has. -/
def ClosePc.Matched (p : ClosePc) (s : Shared) : Prop :=
  ∀ kind old, p = .reset kind (.write old) → old = s.held kind

/-- What `connect` is about to write over is what the pointer has. -/
def ConnectPc.Matched (p : ConnectPc) (s : Shared) : Prop :=
  ∀ kind raw old, p = .store kind raw (.write old) → old = s.held kind

/-- An assignment is about to write over what it has just read. -/
theorem assignStep_matched {s s' : Shared} {kind : HandleKind} {new old : Option Handle}
    {p : AssignPc} (h : assignStep s kind new p = some (s', some (.write old))) :
    old = s'.held kind := by
  rcases assignStep_cases h with ⟨rfl, rfl, heq⟩ | ⟨x, rfl, rfl, heq⟩ | ⟨x, rfl, heq, rfl⟩ |
    ⟨x, rfl, heq, rfl, -⟩
  · cases heq
    rfl
  · cases x <;> cases heq
  · cases heq
  · cases heq

theorem closeStep_matched {who : Closer} {s s' : Shared} {p p' : ClosePc}
    (h : closeStep who s p = some (s', some p')) : p'.Matched s' := by
  rintro kind old rfl
  rcases closeStep_cases h with ⟨kind', p₀, q₀, rfl, hassign, hq⟩ | ⟨-, hread, -⟩
  · cases q₀ with
    | none => cases kind' <;> cases hq
    | some p₁ =>
      cases hq
      exact assignStep_matched hassign
  · cases hread kind _ rfl

theorem connectStep_matched {s s' : Shared} {ok : Bool} {p p' : ConnectPc}
    (h : connectStep s ok p = some (s', .goto p')) : p'.Matched s' := by
  rintro kind raw old rfl
  rcases connectStep_cases h with ⟨kind', raw', p₀, q₀, rfl, hassign, hq⟩ |
    ⟨kind', parent, rfl, rfl, hq⟩ | ⟨-, hstore, -⟩
  · cases q₀ with
    | none => cases kind' <;> cases hq
    | some p₁ =>
      cases hq
      exact assignStep_matched hassign
  · cases hq
  · exact absurd rfl (hstore kind raw _)

end Cfd.Tunnel.Session
