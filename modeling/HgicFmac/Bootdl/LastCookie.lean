import HgicFmac.Fwctrl.Inv

/-!
# The cookie of a firmware fragment

`hgic_bootdl_send_data` draws no cookie: it reads `last_cookie`, which every `hgic_bootdl_send_cmd` overwrites, also
the ENTER commands that `hgicf_detect_work` sends while a download runs. The device answers the raw data with the
cookie of the last WRITE_MEM command.

* `DownloadRun` : one download, whose commands and fragments follow one another, and ENTER commands at any time;
* `FragmentMatched` : the response taken for a fragment is the answer to that fragment;
* `CookieFree` : when `last_cookie` is read nothing under way carries it, and no cookie is drawn that an unfinished
  fragment uses;
* `fragment_matched_of_free` : this is enough; without it a fragment takes the answer to an ENTER command
  (`fragment_matched_fails`).
-/

namespace HgicFmac.Bootdl
open Lib Fwctrl

/-- All calls of `hgic_bootdl_download` so far have returned. -/
def Returned (s : Ctrl) : Prop := ∀ j < s.calls, (s.call j).sender ≠ .bootCmd .enter → (s.call j).pc = .returned

/-- The last call of `hgic_bootdl_download` was a WRITE_MEM command, acknowledged with 0. -/
def Acked (s : Ctrl) : Prop :=
  ∃ j < s.calls, (s.call j).sender = .bootCmd .writeMem ∧ (∃ r, (s.call j).out = some r ∧ r.ok = true) ∧
    ∀ k < s.calls, j < k → (s.call k).sender = .bootCmd .enter

/-- `hgic_bootdl_download` sends WRITE_MEM, the fragment when WRITE_MEM is acknowledged, and so on, and RUN; ENTER
commands are sent at any time; the device only answers. -/
def DownloadRun (s : Ctrl) : Act → Prop
  | .start (.bootCmd .enter) => True
  | .start (.bootCmd _) => Returned s
  | .start .bootData => Returned s ∧ Acked s
  | .start _ => False
  | .inject _ _ _ _ => False
  | _ => True

/-- The response taken for a fragment is the answer to the data of that fragment. -/
def FragmentMatched (s : Ctrl) : Prop :=
  ∀ i r, (s.call i).sender = .bootData → (s.call i).skb = some r → r.src = some i

/-- Call `j` has something under way that carries the cookie `c`, or has still to queue its packet. A fragment in
`txq` carries no cookie of its own, so it counts for every one. -/
def Carries (s : Ctrl) (c j : Nat) : Prop :=
  (∃ p ∈ s.txq, p.call = j ∧ (p.sender = .bootData ∨ p.cookie = c)) ∨
    (∃ d ∈ s.dev, d.skb.call = j ∧ d.cookie = c) ∨
    (∃ r, (r ∈ s.rxq ∨ s.cur = some r) ∧ r.src = some j ∧ r.cookie = c) ∨
    (j < s.calls ∧ Queued (s.call j).pc = false ∧ (s.call j).cookie = c)

/-- A fragment reads `last_cookie` only while nothing under way carries it, and no cookie is drawn that an
unfinished fragment uses. -/
def CookieFree (s : Ctrl) : Act → Prop
  | .start .bootData => ∀ j < s.calls, ¬ Carries s s.lastCookie j
  | .start _ => ∀ j < s.calls, (s.call j).sender = .bootData → (s.call j).pc ≠ .returned → (s.call j).cookie ≠ s.cookie
  | _ => True

structure DataInv (s : Ctrl) : Prop where
  wf : Wf s
  src : ∀ r, s.Holds r → ∃ i, r.src = some i
  one : Single s .bootData
  own : ∀ i < s.calls, (s.call i).sender = .bootData → (s.call i).pc ≠ .returned →
    ∀ j, Carries s (s.call i).cookie j → j = i
  held : FragmentMatched s

theorem dataInv_init : DataInv hgicFwctrlInit where
  wf := wf_init
  src r hr := by simp [hgicFwctrlInit, Ctrl.Holds] at hr
  one i hi := absurd hi (Nat.not_lt_zero i)
  own i hi := absurd hi (Nat.not_lt_zero i)
  held i r _ hr := by simp [hgicFwctrlInit] at hr

section Step
variable {s t : Ctrl} {a : Act}

theorem carries_lt (hw : Wf s) {c j : Nat} (hj : Carries s c j) : j < s.calls := by
  rcases hj with ⟨p, hp, hj, -⟩ | ⟨d, hd, hj, -⟩ | ⟨r, hr, hj, -⟩ | ⟨hj, -⟩
  · exact hw.underWay_lt (.inl ⟨p, hp, hj⟩)
  · exact hw.underWay_lt (.inr (.inl ⟨d, hd, hj⟩))
  · exact hw.underWay_lt (.inr (.inr ⟨r, hr, hj⟩))
  · exact hj

/-- A cookie gets a new carrier only through a new call, or when a fragment is queued. -/
theorem carries_step (hw : Wf s) (h : StepCase s a t) {c j : Nat} (hj : Carries t c j) :
    Carries s c j ∨ (∃ k, a = .start k ∧ j = s.calls ∧ (newCall s k).cookie = c) ∨
      ((s.call j).sender = .bootData ∧ (s.call j).pc = .toQueue) := by
  rcases hj with ⟨p, hp, rfl, hc⟩ | ⟨d, hd, rfl, hc⟩ | ⟨r, hr, hj, hc⟩ | ⟨hlt, hq, hc⟩
  · rcases h.txq_cases hp with hp | ⟨i, -, hpc, rfl⟩
    · exact .inl (.inl ⟨p, hp, rfl, hc⟩)
    · -- the queued packet: a command carried its cookie before, a fragment is the last case
      by_cases hk : (s.call i).sender = .bootData
      · exact .inr (.inr ⟨hk, hpc⟩)
      · simp only [Ctrl.packet, hk, if_false, false_or] at hc
        exact .inl (.inr (.inr (.inr ⟨hw.lt (by simp [Ctrl.packet, hpc]), by simp [Ctrl.packet, hpc, Queued], hc⟩)))
  · rcases h.dev_cases hd with hd | ⟨hp, hd⟩
    · exact .inl (.inr (.inl ⟨d, hd, rfl, hc⟩))
    · refine .inl (.inl ⟨d.skb, hp, rfl, ?_⟩)
      by_cases hk : d.skb.sender = .bootData
      · exact .inl hk
      · rw [if_neg hk] at hd
        exact .inr (hd ▸ hc)
  · rcases h.rx_cases hr with hr | ⟨hn, -⟩ | ⟨d, hd, hsrc, hcd, -⟩
    · exact .inl (.inr (.inr (.inl ⟨r, hr, hj, hc⟩)))
    · rw [hn] at hj
      cases hj
    · rw [hsrc] at hj
      exact .inl (.inr (.inl ⟨d, hd, Option.some.inj hj, hcd ▸ hc⟩))
  · rcases h.calls_cases hlt with hlt | ⟨k, ha, hj, he⟩
    · rw [(h.frame hlt).2] at hc
      refine .inl (.inr (.inr (.inr ⟨hlt, Bool.eq_false_iff.mpr fun hqs => ?_, hc⟩)))
      rw [h.queued hw hqs] at hq
      cases hq
    · exact .inr (.inl ⟨k, ha, hj, he ▸ hc⟩)

/-- A new fragment starts with a cookie that nothing under way carries. -/
theorem DataInv.own_start (hs : DataInv s) (hrun : DownloadRun s (.start .bootData))
    (ha : CookieFree s (.start .bootData)) (h : StepCase s (.start .bootData) t) {j : Nat}
    (hj : Carries t s.lastCookie j) : j = s.calls := by
  rcases carries_step hs.wf h hj with hj | ⟨k, -, hj, -⟩ | ⟨hkj, hpj⟩
  · exact absurd hj (ha j (carries_lt hs.wf hj))
  · exact hj
  · have := hrun.1 j (hs.wf.lt (by simp [hpj])) (by simp [hkj])
    rw [hpj] at this
    cases this

theorem DataInv.own_step (hs : DataInv s) (hrun : DownloadRun s a) (ha : CookieFree s a) (h : StepCase s a t) :
    ∀ i < t.calls, (t.call i).sender = .bootData → (t.call i).pc ≠ .returned →
      ∀ j, Carries t (t.call i).cookie j → j = i := by
  intro i hi hk hp j hj
  rcases h.calls_cases hi with hlt | ⟨k, rfl, rfl, he⟩
  · obtain ⟨hk', hc'⟩ := h.frame hlt
    have hp' := h.not_returned hlt hp
    rw [hk'] at hk
    rw [hc'] at hj
    rcases carries_step hs.wf h hj with hj | ⟨k, rfl, -, hnew⟩ | ⟨hkj, hpj⟩
    · exact hs.own i hlt hk hp' j hj
    · -- a command draws a cookie that the unfinished fragment does not use; a second fragment does not start
      cases k with
      | cmd | bootCmd => exact absurd hnew.symm (ha i hlt hk hp')
      | bootData => exact absurd (hrun.1 i hlt (by simp [hk])) hp'
      | ota => exact absurd hrun id
    · exact hs.one i hlt j (hs.wf.lt (by simp [hpj])) hk hkj hp' (by simp [hpj])
  · rw [he] at hk hj
    obtain rfl : k = .bootData := hk
    exact hs.own_start hrun ha h hj

theorem DataInv.held_step (hs : DataInv s) (h : StepCase s a t) : FragmentMatched t := by
  intro i r hk hr
  rcases h.skb hr with hr | ⟨hcur, -, hfind⟩
  · have hilt : i < s.calls := by
      by_contra hlt
      rw [hs.wf.fresh i (by omega)] at hr
      cases hr
    exact hs.held i r ((h.frame hilt).1 ▸ hk) hr
  · have hmem := find_mem hfind
    have hilt := hs.wf.pdList_lt hmem
    obtain ⟨j, hj⟩ := hs.src r (.inr (.inl hcur))
    have hcar : Carries s (s.call i).cookie j := .inr (.inr (.inl ⟨r, .inr hcur, hj, (find_cookie hfind).symm⟩))
    rw [hj, hs.own i hilt ((h.frame hilt).1 ▸ hk) (hs.wf.listed_not_returned hmem) j hcar]

theorem dataInv_step (hs : DataInv s) (ha : DownloadRun s a ∧ CookieFree s a) (hst : step s a = some t) :
    DataInv t := by
  have h := step_cases hst
  refine ⟨wf_step hs.wf hst, fun r hr => ?_, ?_, hs.own_step ha.1 ha.2 h, hs.held_step h⟩
  · refine h.src (fun type cookie ok alloc he => ?_) hs.src hr
    rw [he] at ha
    exact ha.1
  · apply h.single hs.one
    intro he j hj hk
    rw [he] at ha
    exact ha.1.1 j hj (by simp [hk])

end Step

/-- In every run of a download and ENTER commands in which a fragment reads `last_cookie` only while nothing under
way carries it, and no cookie of an unfinished fragment is drawn again, the response taken for a fragment is the
answer to its data. -/
theorem fragment_matched_of_free {as : List Act} {s : Ctrl}
    (ha : Steps step (fun s a => DownloadRun s a ∧ CookieFree s a) hgicFwctrlInit as)
    (hr : runFrom step hgicFwctrlInit as = some s) : FragmentMatched s :=
  (run_invariant step (fun _ _ _ => dataInv_step) dataInv_init ha hr).held

instance (s : Ctrl) : Decidable (Returned s) := inferInstanceAs (Decidable (∀ j < s.calls, _ → _))

instance (s : Ctrl) : Decidable (Acked s) :=
  have (o : Option RxSkb) : Decidable (∃ r, o = some r ∧ r.ok = true) :=
    decidable_of_iff (o.any RxSkb.ok = true) (Option.any_eq_true _ _)
  inferInstanceAs (Decidable (∃ j < s.calls, _ ∧ _ ∧ ∀ k < s.calls, _ → _))

instance (s : Ctrl) (c j : Nat) : Decidable (Carries s c j) :=
  have : Decidable (∃ r, (r ∈ s.rxq ∨ s.cur = some r) ∧ r.src = some j ∧ r.cookie = c) :=
    decidable_of_iff (∃ r ∈ s.cur.toList ++ s.rxq, r.src = some j ∧ r.cookie = c)
      (by simp only [List.mem_append, Option.mem_toList, or_comm])
  inferInstanceAs (Decidable (_ ∨ _ ∨ _ ∨ _))

instance (s : Ctrl) : (a : Act) → Decidable (DownloadRun s a)
  | .start (.bootCmd .enter) => isTrue trivial
  | .start (.bootCmd .writeMem) | .start (.bootCmd .run) => inferInstanceAs (Decidable (Returned s))
  | .start .bootData => inferInstanceAs (Decidable (_ ∧ _))
  | .start .cmd | .start .ota | .inject _ _ _ _ => isFalse id
  | .call _ | .timeout _ | .tx _ | .answer _ _ _ _ | .deq | .dispatch => isTrue trivial

instance (s : Ctrl) : (a : Act) → Decidable (CookieFree s a)
  | .start .bootData => inferInstanceAs (Decidable (∀ j < s.calls, _))
  | .start .cmd | .start (.bootCmd _) | .start .ota =>
    inferInstanceAs (Decidable (∀ j < s.calls, _ → _ → _))
  | .call _ | .timeout _ | .tx _ | .answer _ _ _ _ | .inject _ _ _ _ | .deq | .dispatch => isTrue trivial

def writeMem : List Act :=
  List.flatten [[.start (.bootCmd .writeMem)], runCall 0 4, [.tx true, .answer 0 .bootdl true true, .deq, .dispatch],
    runCall 0 3]

def oneFragment : List Act :=
  List.flatten [writeMem, [.start .bootData], runCall 1 4, [.tx true, .answer 0 .bootdl true true, .deq, .dispatch],
    runCall 1 3]

theorem fragment_matched_of_free_one :
    ∃ s, runFrom step hgicFwctrlInit oneFragment = some s ∧ (s.call 1).out.isSome ∧ FragmentMatched s :=
  ⟨_, rfl, rfl, @fragment_matched_of_free oneFragment _ (by decide) rfl⟩

/-- An ENTER command is queued between the acknowledgement of WRITE_MEM and the fragment. -/
def enterBetween : List Act :=
  List.flatten [writeMem, [.start (.bootCmd .enter)], runCall 1 4, [.start .bootData], runCall 2 4,
    [.tx true, .answer 0 .bootdl true true, .deq, .dispatch]]

/-- The fragment takes the answer to the ENTER command. -/
theorem fragment_matched_fails : ¬ ∀ as s, Steps step DownloadRun hgicFwctrlInit as →
    runFrom step hgicFwctrlInit as = some s → FragmentMatched s := by
  intro h
  have hm := h enterBetween _ (by decide) rfl
  exact absurd (hm 2 ⟨1, some 1, .bootdl, 1, true⟩ rfl rfl) (by decide)

end HgicFmac.Bootdl
