import HgicFmac.Fwctrl.Inv
import Mathlib.Data.Nat.Bitwise

/-!
# Commands get their own response

Runs of `hgic_fwctrl_do_cmd` and `hgic_bootdl_send_cmd` calls against a device that answers a packet at most
once and echoes its cookie (`commandAct`). While fewer than `2^15` cookies have been drawn, all calls have
different cookies, so the first pending entry with the cookie of a response is the entry of the call that the
response answers (`CommandInv.held`).
-/

namespace HgicFmac.Fwctrl
open Lib

/-- The senders are `hgic_fwctrl_do_cmd` and `hgic_bootdl_send_cmd`, and the device only answers. -/
def commandAct : Act → Bool
  | .start .bootData | .start .ota | .inject _ _ _ _ => false
  | _ => true

structure CommandInv (s : Ctrl) : Prop where
  wf : Wf s
  drawn : s.drawn = s.calls
  cookie : s.cookie = s.calls % 2 ^ 15
  own : ∀ i < s.calls, (s.call i).cookie = i % 2 ^ 15 ∧ (s.call i).sender ≠ .bootData
  src : ∀ r, s.Holds r → ∃ i, r.src = some i
  held : s.calls ≤ 2 ^ 15 → ∀ i r, (s.call i).skb = some r → r.src = some i

theorem commandInv_init : CommandInv hgicFwctrlInit where
  wf := wf_init
  drawn := rfl
  cookie := rfl
  own i hi := absurd hi (Nat.not_lt_zero i)
  src r hr := by simp [hgicFwctrlInit, Ctrl.Holds] at hr
  held _ i r hr := by simp [hgicFwctrlInit] at hr

theorem mask_succ (c : Nat) : (c % 2 ^ 15 + 1) % 2 ^ 16 &&& hgicTxCookieMask = (c + 1) % 2 ^ 15 := by
  rw [show hgicTxCookieMask = 2 ^ 15 - 1 from rfl, Nat.and_two_pow_sub_one_eq_mod]
  omega

section Step
variable {s t : Ctrl} {a : Act}

/-- The entry that `hgic_fwctrl_rx_response` finds for a response is that of the call it answers. -/
theorem CommandInv.find_src (hs : CommandInv s) (hle : s.calls ≤ 2 ^ 15) {r : RxSkb} {i : Nat}
    (hr : s.Holds r) (hi : s.find r.cookie = some i) : r.src = some i := by
  obtain ⟨j, hj⟩ := hs.src r hr
  obtain ⟨hans, hecho⟩ := hs.wf.echo r j hr hj
  have hlt := hs.wf.answered_lt hans
  have hilt := hs.wf.pdList_lt (find_mem hi)
  have hij : i % 2 ^ 15 = j % 2 ^ 15 := by
    rw [← (hs.own i hilt).1, ← (hs.own j hlt).1, find_cookie hi, hecho (hs.own j hlt).2]
  rw [hj, show i = j by omega]

theorem commandInv_step (hs : CommandInv s) (ha : commandAct a) (hst : step s a = some t) : CommandInv t := by
  have h := step_cases hst
  have hown : ∀ i < s.calls, (t.call i).cookie = i % 2 ^ 15 ∧ (t.call i).sender ≠ .bootData := fun i hi => by
    obtain ⟨hk, hc⟩ := h.frame hi
    rw [hk, hc]
    exact hs.own i hi
  have hsrc : ∀ r, t.Holds r → ∃ i, r.src = some i := fun r hr => by
    refine h.src (fun type cookie ok alloc he => ?_) hs.src hr
    simp [he, commandAct] at ha
  have hheld : t.calls ≤ 2 ^ 15 → ∀ i r, (t.call i).skb = some r → r.src = some i := fun hle i r hr => by
    have hle' := Nat.le_trans h.calls_le hle
    rcases h.skb hr with hr | ⟨hcur, -, hi⟩
    · exact hs.held hle' i r hr
    · exact hs.find_src hle' (.inr (.inl hcur)) hi
  have hwf := wf_step hs.wf hst
  cases h with
  | start k cookie drawn hc hd =>
    have hk : k ≠ .bootData := by
      rintro rfl
      simp [commandAct] at ha
    rw [if_neg hk] at hc hd
    have hnew : (newCall s k).cookie = s.cookie := by
      cases k <;> simp_all [commandAct, newCall]
    refine ⟨hwf, ?_, ?_, fun i hi => ?_, hsrc, hheld⟩
    · rw [hd, hs.drawn]
    · rw [hc, hs.cookie, mask_succ]
    · by_cases hlt : i < s.calls
      · exact hown i hlt
      · obtain rfl : i = s.calls := by
          simp only at hi
          omega
        simp [hnew, hs.cookie, hk]
  | move | store | add | drop | queue | del | sent | lost | answer | answerLost | inject | injectLost | deq | found
  | freed | other => exact ⟨hwf, hs.drawn, hs.cookie, hown, hsrc, hheld⟩

end Step

/-- In every run of command senders that draws fewer than `2^15` cookies, what `hgic_fwctrl_send_data` returns
to a caller answers the packet of that caller, no response is returned to two callers, and a caller whose
packet was dropped or not answered gets `NULL`. -/
theorem send_data_returns_own_response {as : List Act} {s : Ctrl}
    (ha : Steps step (fun _ a => commandAct a) hgicFwctrlInit as)
    (hr : runFrom step hgicFwctrlInit as = some s) (hd : s.drawn < 2 ^ 15) (i : Nat) :
    (∀ r, (s.call i).out = some r → r.src = some i) ∧
    (∀ j r, (s.call i).out = some r → (s.call j).out = some r → j = i) ∧
    (i ∈ s.dropped ∨ i ∉ s.answered → (s.call i).out = none) := by
  have hs : CommandInv s := run_invariant step (fun _ _ _ => commandInv_step) commandInv_init ha hr
  have hle : s.calls ≤ 2 ^ 15 := by
    have := hs.drawn
    omega
  have hout : ∀ j r, (s.call j).out = some r → (s.call j).skb = some r := fun j r hj => by
    rw [hs.wf.out j] at hj
    split_ifs at hj
    exact hj
  have hown : ∀ j r, (s.call j).out = some r → r.src = some j := fun j r hj => hs.held hle j r (hout j r hj)
  refine ⟨hown i, fun j r hir hjr => ?_, fun hlost => ?_⟩
  · have := hown i r hir
    rw [hown j r hjr, Option.some.injEq] at this
    exact this
  · cases hx : (s.call i).out with
    | none => rfl
    | some r =>
      obtain ⟨hans, -⟩ := hs.wf.echo r i (.inr (.inr ⟨i, hout i r hx⟩)) (hown i r hx)
      have hn := hs.wf.places
      simp only [Ctrl.places, List.nodup_append] at hn
      rcases hlost with hlost | hlost
      · exact absurd rfl (hn.2.1.2.1.2.2 i hans i hlost)
      · exact absurd hans hlost

def crossedAnswers : List Act :=
  List.flatten [[.start .cmd, .start (.bootCmd .enter)], runCall 0 4, runCall 1 4,
    [.tx true, .tx true, .answer 1 .bootdl true true, .answer 0 .cmd true true, .deq, .dispatch, .deq, .dispatch],
    runCall 0 3, runCall 1 3]

theorem send_data_returns_own_response_crossed :
    ∃ s, runFrom step hgicFwctrlInit crossedAnswers = some s ∧ (s.call 0).out.isSome ∧
      ∀ r, (s.call 0).out = some r → r.src = some 0 :=
  ⟨_, rfl, rfl, (@send_data_returns_own_response crossedAnswers _ (by decide) rfl (by decide) 0).1⟩

end HgicFmac.Fwctrl
