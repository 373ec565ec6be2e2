import Cfd.Base.Deal
import Cfd.Main.MultiSink

/-!
# How the packets are spread

`MultiSink` of `src/main.cpp` deals the packets to the clients in turn by a counter that wraps around.
`spread_iff` says when that is even, over any stretch of any run and whatever the health of the clients:
exactly if the number of clients divides the number of values of `next_`. With four clients the counter
may wrap around.
-/

set_option autoImplicit false

namespace Cfd.Main

open Cfd.Base

variable {n w : Nat}

/-- Of any stretch of the packets every client gets the `n`-th part, rounded down or up. -/
def Even (log : List (Handover n)) : Prop :=
  ∀ (a m : Nat) (i : Fin n), a + m ≤ log.length →
    m / n ≤ ((log.drop a).take m).countP (fun e => e.client = i) ∧
      ((log.drop a).take m).countP (fun e => e.client = i) ≤ (m + n - 1) / n

/-- Where the counter wraps around unnoticed, the packets are dealt in turn. -/
theorem MultiSink.Sound.even {s : MultiSink n w} (h : s.Sound) (hdvd : n ∣ 2 ^ w) : Even s.log := by
  intro a m i hm
  have hlen : ((s.log.drop a).take m).length = m := by
    rw [List.length_take, List.length_drop]
    omega
  have hturn : ∀ j e, ((s.log.drop a).take m)[j]? = some e → e.client.val = (a + j) % n := by
    intro j e hj
    have hjm : j < m := by
      have hlt := (List.getElem?_eq_some_iff.mp hj).1
      omega
    rw [List.getElem?_take_of_lt hjm, List.getElem?_drop] at hj
    rw [h.turn (a + j) e hj, Nat.mod_mod_of_dvd _ hdvd]
  have hcount : ((s.log.drop a).take m).countP (fun e => e.client = i) = Deal.share n a m i := by
    have hshare := Deal.countP_eq_share (i := i.val) hturn
    rw [hlen] at hshare
    rw [← hshare]
    simp only [Fin.ext_iff]
  rw [hcount]
  exact ⟨Deal.le_share i.isLt a m, Deal.share_le i.isLt a m⟩

/-- There are runs of any number of packets. -/
theorem exists_log_length (hn : 0 < n) (k : Nat) :
    ∃ s, (pump n w).Reachable s ∧ s.log.length = k := by
  induction k with
  | zero => exact ⟨_, .init, rfl⟩
  | succ k ih =>
    obtain ⟨s, hs, hlen⟩ := ih
    refine ⟨s.onPacket [], .step (a := .packet []) hs trivial rfl, ?_⟩
    rw [MultiSink.onPacket, dif_pos hn, List.length_append, hlen, List.length_singleton]

/-- A client whose turn it is where the counter wraps around gets two packets of too few. -/
theorem not_even_of_wrap (hn : 0 < n) (hdvd : ¬ n ∣ 2 ^ w) {s : MultiSink n w} (h : s.Sound)
    (hlen : s.log.length = 2 ^ w + 1) : ¬ Even s.log := by
  intro heven
  obtain ⟨r, hr⟩ : ∃ r, r = 2 ^ w % n := ⟨_, rfl⟩
  have hrn : r < n := hr ▸ Nat.mod_lt _ hn
  have hpos : 0 < r := Nat.pos_of_ne_zero fun h0 => hdvd (Nat.dvd_of_mod_eq_zero (hr ▸ h0))
  have hle : r ≤ 2 ^ w := hr ▸ Nat.mod_le _ _
  -- the first number of the last round before the wrap, and the first number behind it
  have hzero : (2 ^ w - r) % 2 ^ w % n = 0 := by
    have hlt : 2 ^ w - r < 2 ^ w := Nat.sub_lt (by omega) hpos
    have hround : n ∣ 2 ^ w - r := by
      rw [hr]
      exact Nat.dvd_sub_mod _
    rw [Nat.mod_eq_of_lt hlt, Nat.mod_eq_zero_of_dvd hround]
  have hclient : ∀ j e, s.log[j]? = some e → j % 2 ^ w % n = 0 → e.client = ⟨0, hn⟩ := by
    intro j e hj hturn
    exact Fin.ext ((h.turn j e hj).trans hturn)
  obtain ⟨hcount, hupper⟩ := heven (2 ^ w - r) (r + 1) ⟨0, hn⟩ (by omega)
  have hone : (r + 1 + n - 1) / n = 1 := by
    rw [Nat.div_eq_iff hn]
    omega
  rw [hone] at hupper
  have hdrop : (s.log.drop (2 ^ w - r)).length = r + 1 := by
    rw [List.length_drop]
    omega
  rw [List.take_of_length_le (Nat.le_of_eq hdrop)] at hupper
  have htwo : 2 ≤ (s.log.drop (2 ^ w - r)).countP fun e => e.client = ⟨0, hn⟩ := by
    have hsplit := List.take_append_drop r (s.log.drop (2 ^ w - r))
    rw [← hsplit, List.countP_append, List.drop_drop]
    have hfront : 0 < ((s.log.drop (2 ^ w - r)).take r).countP fun e => e.client = ⟨0, hn⟩ := by
      have hlt : 2 ^ w - r < s.log.length := by omega
      apply List.countP_pos_iff.mpr
      refine ⟨s.log[2 ^ w - r], ?_, ?_⟩
      · apply List.mem_of_getElem? (i := 0)
        rw [List.getElem?_take_of_lt hpos, List.getElem?_drop]
        exact List.getElem?_eq_getElem hlt
      · exact decide_eq_true (hclient _ _ (List.getElem?_eq_getElem hlt) hzero)
    have hback : 0 < (s.log.drop (2 ^ w - r + r)).countP fun e => e.client = ⟨0, hn⟩ := by
      have hlt : 2 ^ w < s.log.length := by omega
      apply List.countP_pos_iff.mpr
      refine ⟨s.log[2 ^ w], ?_, ?_⟩
      · apply List.mem_of_getElem? (i := 0)
        rw [Nat.sub_add_cancel hle, List.getElem?_drop]
        exact List.getElem?_eq_getElem hlt
      · refine decide_eq_true (hclient _ _ (List.getElem?_eq_getElem hlt) ?_)
        rw [Nat.mod_self, Nat.zero_mod]
    omega
  omega

/-- **When the packets are dealt evenly.** In every run of the sink, however the health of its clients
changes, each of its `n` clients gets of every stretch of consecutive packets the `n`-th part, rounded
down or up, if and only if `n` divides `2 ^ w`, the number of values of the counter. -/
theorem spread_iff (hn : 0 < n) :
    (∀ s, (pump n w).Reachable s → Even s.log) ↔ n ∣ 2 ^ w := by
  constructor
  · intro hall
    by_contra hdvd
    obtain ⟨s, hs, hlen⟩ := exists_log_length (w := w) hn (2 ^ w + 1)
    exact not_even_of_wrap hn hdvd (MultiSink.Sound.of_reach hs) hlen (hall s hs)
  · intro hdvd s hs
    exact (MultiSink.Sound.of_reach hs).even hdvd

/-- Four clients and a counter of 64 bits: also over the wrap. Three are dealt to unevenly. -/
theorem spread_iff_four : (∀ s, (pump 4 64).Reachable s → Even s.log) ∧
    ¬∀ s, (pump 3 64).Reachable s → Even s.log :=
  ⟨(spread_iff (by decide)).mpr (by decide), fun h => absurd ((spread_iff (by decide)).mp h) (by decide)⟩

end Cfd.Main
