import AgriFi.RegulatoryReporting.Service
import AgriFi.Threads

/-
  How often a report is filed. A retry leaves the submission that it retries `failed` and files
  anew, and it reopens a report that is `submitted` without asking through which submission: once
  a retry has gone through, the next pass comes to the old submission again and files the report a
  second time (`filed_twice`). `filed_once`: as long as no retry finds its report submitted, no
  filing through the API starts beside another or after an acceptance that was lost, and a
  submission becomes outstanding only where no other is, a report is taken once, stays filed, and
  each pass leaves one submission at most.
-/

namespace AgriFi.RegulatoryReporting

open AgriFi.Runs AgriFi.Threads

/-! ## What is claimed -/

structure FiledOnce (s : State) : Prop where
  once : s.taken.length ≤ 1
  stays : s.filed = true → s.report.status.isFiled = true
  leaves : ∀ left ∈ s.leftover, left.length ≤ 1

/-! ## When it holds -/

namespace Pc

/-- The thread files through the API, and the report is not told of its end. -/
def underWay : Pc → Bool
  | .create .api _ | .post _ _ _ | .saveAccepted _ _ _ _ | .file _ _ _ => true
  | _ => false

/-- The thread files through the API, and the authority has not seen it. -/
def unposted : Pc → Bool
  | .create .api _ | .post _ _ _ => true
  | _ => false

/-- The authority took the submission, and the report is not told. -/
def untold : Pc → Bool
  | .saveAccepted _ _ _ _ | .file _ _ _ => true
  | _ => false

/-- The thread does not set the report back. -/
def KeepsReport : Pc → Prop
  | .markFailed _ _ status => status ≠ .submitted
  | .reopen _ => False
  | _ => True

/-- The submission that a retry files, with the one that it retries. -/
def attempt : Pc → Option (Nat × Nat)
  | .post id _ (some retried) | .saveAccepted id _ _ (some retried)
  | .saveRefused id _ _ (some retried) => some (id, retried)
  | _ => none

end Pc

/-- What a step of the thread needs. -/
def StepCareful (s : System) (w : Nat) (configured : Bool) : Pc → Prop
  | .submit manualFiling _ =>
    s.state.report.status = .reviewed → channelOf configured manualFiling = .api →
      s.state.untold = [] ∧ ∀ t ∈ s.threads.eraseIdx w, t.pc.underWay = false
  | .create channel retried =>
    ∀ id ∈ s.state.outstanding, retried = some id ∧ channel = .api ∧
      ∀ t ∈ s.threads.eraseIdx w, t.queue = none
  | .saveRefused id _ status _ => status ≠ .rejected → ∀ other ∈ s.state.outstanding, other = id
  | .findReport _ _ => s.state.report.status ≠ .submitted
  | .markFailed id _ _ => ∀ other ∈ s.state.outstanding, other = id
  | _ => True

instance (s : System) (w : Nat) (configured : Bool) (pc : Pc) :
    Decidable (StepCareful s w configured pc) := by
  unfold StepCareful
  split <;> infer_instance

/-- What a step needs that throws: a submission that stays pending is the only one. -/
def MayThrow (s : System) : Pc → Prop
  | .saveRefused id _ _ _ => ∀ other ∈ s.state.outstanding, other = id
  | _ => True

instance (s : System) (pc : Pc) : Decidable (MayThrow s pc) := by
  unfold MayThrow
  split <;> infer_instance

def Careful (s : System) : Action → Prop
  | .retryPendingSubmissions _ => s.state.outstanding.length ≤ 1
  | .run w input => ∀ t ∈ s.threads[w]?,
    if input.throws then MayThrow s t.pc else StepCareful s w input.configured t.pc
  | _ => True

instance (s : System) (a : Action) : Decidable (Careful s a) := by
  unfold Careful
  split <;> infer_instance

/-! ## The report -/

section Report

variable {s : System} {state : State} {w : Nat} {t : Thread} {pc' : Pc} {queue : Option (List Nat)}

/-- What the authority took, the report says, or a thread is about to tell it, or it is lost. -/
structure Told (s : System) : Prop where
  apart : AtMostOneInside (fun t : Thread => t.pc.underWay = true) s.threads
  fresh : ∀ t ∈ s.threads, t.pc.unposted = true → s.state.taken = []
  told : s.state.taken ≠ [] → s.state.untold ≠ [] ∨ s.state.report.status.isFiled = true ∨
    ∃ t ∈ s.threads, t.pc.untold = true
  once : s.state.taken.length ≤ 1
  stays : s.state.filed = true → s.state.report.status.isFiled = true
  keeps : ∀ t ∈ s.threads, t.pc.KeepsReport

theorem told_start (status : SarStatus) : Told (start status) := by
  constructor <;> simp [start, AtMostOneInside]

theorem underWay_of_unposted {pc : Pc} (h : pc.unposted = true) : pc.underWay = true := by
  cases pc with
  | create channel retried =>
    cases channel with
    | api => rfl
    | manualSecurePortal => cases h
  | post id submission retried => rfl
  | _ => cases h

theorem underWay_of_untold {pc : Pc} (h : pc.untold = true) : pc.underWay = true := by
  cases pc with
  | saveAccepted id submission reference retried => rfl
  | file id submission retried => rfl
  | _ => cases h

/-- What one step may do to the report and to what the authority took. -/
structure Tells (s : System) (w : Nat) (pc : Pc) (state : State) (pc' : Pc) : Prop where
  stays : state.filed = true → state.report.status.isFiled = true
  filed : s.state.report.status.isFiled = true → state.report.status.isFiled = true
  lost : s.state.untold ≠ [] → state.untold ≠ []
  inside : pc'.underWay = true →
    pc.underWay = true ∨ ∀ t ∈ s.threads.eraseIdx w, t.pc.underWay = false
  fresh : pc'.unposted = true → state.taken = []
  taken : state.taken = s.state.taken ∨ pc.unposted = true ∧ state.taken.length = 1 ∧
    (pc'.untold = true ∨ state.untold ≠ [])
  told : pc.untold = true →
    state.untold ≠ [] ∨ state.report.status.isFiled = true ∨ pc'.untold = true
  keeps : pc'.KeepsReport

theorem Told.set (h : Told s) (ht : s.threads[w]? = some t) (hstep : Tells s w t.pc state pc') :
    Told { state, threads := s.threads.set w ⟨pc', queue⟩ } := by
  have hmem : t ∈ s.threads := List.mem_of_getElem? ht
  have hlt : w < s.threads.length := (List.getElem?_eq_some_iff.mp ht).1
  constructor
  case apart =>
    refine h.apart.set ht fun hin => ?_
    rcases hstep.inside hin with hin | hothers
    · exact .inl hin
    · refine .inr fun v u hu hne hinu => ?_
      rw [hothers u (List.mem_eraseIdx_iff_getElem?.mpr ⟨v, hne, hu⟩)] at hinu
      cases hinu
  case fresh =>
    refine forall_mem_set (fun v u hu hne hun => ?_) hstep.fresh
    rcases hstep.taken with hsame | ⟨hpc, -, -⟩
    · show state.taken = []
      rw [hsame]
      exact h.fresh u (List.mem_of_getElem? hu) hun
    · exact absurd (underWay_of_unposted hun)
        (h.apart.others ht (underWay_of_unposted hpc) hu hne)
  case told =>
    intro htaken
    have hself : pc'.untold = true →
        ∃ u ∈ s.threads.set w ⟨pc', queue⟩, u.pc.untold = true := by
      intro hpc
      exact ⟨⟨pc', queue⟩, List.mem_of_getElem? (List.getElem?_set_self hlt), hpc⟩
    rcases hstep.taken with hsame | ⟨-, -, hpc | hlost⟩
    · have hbefore : s.state.taken ≠ [] := by
        rw [← hsame]
        exact htaken
      rcases h.told hbefore with hlost | hfiled | ⟨u, hu, hun⟩
      · exact .inl (hstep.lost hlost)
      · exact .inr (.inl (hstep.filed hfiled))
      · obtain ⟨v, hv⟩ := List.mem_iff_getElem?.mp hu
        by_cases hvw : v = w
        · rw [hvw, ht] at hv
          obtain rfl := Option.some.inj hv
          exact (hstep.told hun).imp_right fun hor => hor.imp_right hself
        · refine .inr (.inr ⟨u, List.mem_of_getElem? (i := v) ?_, hun⟩)
          rw [List.getElem?_set_ne (Ne.symm hvw)]
          exact hv
    · exact .inr (.inr (hself hpc))
    · exact .inl hlost
  case once =>
    show state.taken.length ≤ 1
    rcases hstep.taken with hsame | ⟨-, hone, -⟩
    · rw [hsame]
      exact h.once
    · omega
  case stays => exact hstep.stays
  case keeps => exact forall_mem_set (others_of_forall h.keeps) hstep.keeps

/-- A step that leaves the report and the history alone. -/
theorem Tells.quiet {pc : Pc} (h : Told s) (hreport : state.report = s.state.report)
    (hfiled : state.filed = s.state.filed) (htaken : state.taken = s.state.taken)
    (huntold : state.untold = s.state.untold) (hpc : pc.untold = false)
    (hpc' : pc'.underWay = false) (hkeeps : pc'.KeepsReport) : Tells s w pc state pc' := by
  constructor
  case stays =>
    rw [hreport, hfiled]
    exact h.stays
  case filed =>
    rw [hreport]
    exact id
  case lost =>
    rw [huntold]
    exact id
  case inside => simp [hpc']
  case fresh =>
    intro hun
    rw [underWay_of_unposted hun] at hpc'
    cases hpc'
  case taken => exact .inl htaken
  case told => simp [hpc]
  case keeps => exact hkeeps

/-- Nothing was taken when a filing through the API starts. -/
theorem Told.fresh_of_careful (h : Told s) (ht : s.threads[w]? = some t)
    (hpc : t.pc.untold = false) (hreviewed : s.state.report.status = .reviewed)
    (huntold : s.state.untold = [])
    (hothers : ∀ u ∈ s.threads.eraseIdx w, u.pc.underWay = false) : s.state.taken = [] := by
  by_contra htaken
  rcases h.told htaken with hlost | hfiled | ⟨u, hu, hun⟩
  · exact hlost huntold
  · rw [hreviewed] at hfiled
    cases hfiled
  · obtain ⟨v, hv⟩ := List.mem_iff_getElem?.mp hu
    by_cases hvw : v = w
    · rw [hvw, ht] at hv
      rw [← Option.some.inj hv, hpc] at hun
      cases hun
    · have hother := hothers u (List.mem_eraseIdx_iff_getElem?.mpr ⟨v, hvw, hv⟩)
      rw [underWay_of_untold hun] at hother
      cases hother

theorem proceed_tells {now : Int} {configured : Bool} {answer : Answer} (h : Told s)
    (ht : s.threads[w]? = some t) (hcareful : StepCareful s w configured t.pc) :
    Tells s w t.pc (proceed s.state now configured answer t.pc).1
      (proceed s.state now configured answer t.pc).2 := by
  have hfresh := h.fresh t (List.mem_of_getElem? ht)
  have hkeeps := h.keeps t (List.mem_of_getElem? ht)
  have hquiet : t.pc.untold = false → ∀ {state : State} {pc' : Pc},
      state.report = s.state.report → state.filed = s.state.filed →
      state.taken = s.state.taken → state.untold = s.state.untold →
      pc'.underWay = false → pc'.KeepsReport → Tells s w t.pc state pc' := by
    intro hpc state pc' hreport hfiled htaken huntold hpc' hkeeps
    exact .quiet h hreport hfiled htaken huntold hpc hpc' hkeeps
  cases hpc : t.pc with
  | submit manualFiling retried =>
    rw [hpc] at hcareful hquiet
    simp only [proceed]
    split
    · next hreviewed =>
      cases hchannel : channelOf configured manualFiling with
      | api =>
        obtain ⟨huntold, hothers⟩ := hcareful hreviewed hchannel
        refine ⟨h.stays, id, id, fun _ => .inr hothers, fun _ => ?_, .inl rfl, nofun, trivial⟩
        exact h.fresh_of_careful ht (by rw [hpc]; rfl) hreviewed huntold hothers
      | manualSecurePortal => exact hquiet rfl rfl rfl rfl rfl rfl trivial
    · exact hquiet rfl rfl rfl rfl rfl rfl trivial
  | create channel retried =>
    rw [hpc] at hfresh hquiet
    cases channel with
    | api => exact ⟨h.stays, id, id, fun _ => .inl rfl, fun _ => hfresh rfl, .inl rfl, nofun, trivial⟩
    | manualSecurePortal => exact hquiet rfl rfl rfl rfl rfl rfl trivial
  | post id submission retried =>
    rw [hpc] at hfresh hquiet
    have htaken : (s.state.take id).taken.length = 1 := by
      rw [State.take, hfresh rfl]
      rfl
    cases answer with
    | accepted reference =>
      exact ⟨h.stays, fun hf => hf, fun hl => hl, fun _ => .inl rfl, nofun,
        .inr ⟨rfl, htaken, .inl rfl⟩, nofun, trivial⟩
    | rejected => exact hquiet rfl rfl rfl rfl rfl rfl trivial
    | timedOut taken =>
      cases taken with
      | true =>
        have hlost : ((s.state.take id).lose id).untold ≠ [] := by simp [State.lose]
        exact ⟨h.stays, fun hf => hf, fun _ => hlost, nofun, nofun,
          .inr ⟨rfl, htaken, .inr hlost⟩, nofun, trivial⟩
      | false => exact hquiet rfl rfl rfl rfl rfl rfl trivial
  | saveAccepted id submission reference retried =>
    exact ⟨h.stays, fun hf => hf, fun hl => hl, fun _ => .inl rfl, nofun, .inl rfl,
      fun _ => .inr (.inr rfl), trivial⟩
  | file id submission retried =>
    exact ⟨fun _ => rfl, fun _ => rfl, fun hl => hl, nofun, nofun, .inl rfl,
      fun _ => .inr (.inl rfl), trivial⟩
  | retry id =>
    rw [hpc] at hquiet
    simp only [proceed]
    split
    · exact hquiet rfl rfl rfl rfl rfl rfl trivial
    · split <;> exact hquiet rfl rfl rfl rfl rfl rfl trivial
  | findReport id previous =>
    rw [hpc] at hquiet hcareful
    exact hquiet rfl rfl rfl rfl rfl rfl hcareful
  | markFailed id previous status =>
    rw [hpc] at hquiet hkeeps
    simp only [proceed]
    rw [if_neg hkeeps]
    exact hquiet rfl rfl rfl rfl rfl rfl trivial
  | reopen id =>
    rw [hpc] at hkeeps
    exact hkeeps.elim
  | markAcknowledged id reference =>
    rw [hpc] at hquiet
    simp only [proceed]
    split <;> exact hquiet rfl rfl rfl rfl rfl rfl trivial
  | acknowledge submittedAt =>
    exact ⟨fun _ => rfl, fun _ => rfl, fun hl => hl, nofun, nofun, .inl rfl, nofun, trivial⟩
  | audit _ _ _ | saveRefused _ _ _ _ | saveAcknowledged _ _ _ | done =>
    rw [hpc] at hquiet
    exact hquiet rfl rfl rfl rfl rfl rfl trivial

theorem throw_tells (h : Told s) (pc : Pc) :
    Tells s w pc (throw s.state pc).1 (throw s.state pc).2 := by
  have hlost : ∀ id, (s.state.lose id).untold ≠ [] := by simp [State.lose]
  cases pc with
  | saveAccepted id submission reference retried =>
    exact ⟨h.stays, fun hf => hf, fun _ => hlost id, nofun, nofun, .inl rfl,
      fun _ => .inl (hlost id), trivial⟩
  | file id submission retried =>
    exact ⟨h.stays, fun hf => hf, fun _ => hlost id, nofun, nofun, .inl rfl,
      fun _ => .inl (hlost id), trivial⟩
  | _ => exact .quiet h rfl rfl rfl rfl rfl rfl trivial

theorem Told.advance {s' : System} (h : Told s) (ht : s.threads[w]? = some t)
    (hdone : t.pc = .done) (hstep : s.advance w t.queue = some s') : Told s' := by
  have hpc : t.pc.untold = false := by
    rw [hdone]
    rfl
  unfold System.advance at hstep
  split at hstep
  · cases hstep
    exact h.set ht (.quiet h rfl rfl rfl rfl hpc rfl trivial)
  · cases hstep
    exact h.set ht (.quiet h rfl rfl rfl rfl hpc rfl trivial)
  · cases hstep

/-- A call joins. -/
theorem Told.call {pc : Pc} (h : Told s) (hpc : pc.underWay = false) (hkeeps : pc.KeepsReport) :
    Told (s.call pc queue) := by
  have hun : pc.unposted = true → s.state.taken = [] := by
    intro hun
    rw [underWay_of_unposted hun] at hpc
    cases hpc
  constructor
  case apart =>
    refine h.apart.append ?_
    show ¬ pc.underWay = true
    rw [hpc]
    exact Bool.false_ne_true
  case fresh => exact forall_mem_append h.fresh hun
  case told =>
    intro htaken
    exact (h.told htaken).imp_right fun hor =>
      hor.imp_right fun ⟨u, hu, hun⟩ => ⟨u, List.mem_append_left _ hu, hun⟩
  case once => exact h.once
  case stays => exact h.stays
  case keeps => exact forall_mem_append h.keeps hkeeps

end Report

/-! ## The submissions -/

section Submissions

variable {s : State} {id other : Nat} {row : AmlRegulatorySubmission}

theorem mem_outstanding_iff : id ∈ s.outstanding ↔
    ∃ row, s.submissions[id]? = some row ∧ row.isOutstanding = true := by
  unfold State.outstanding
  rw [List.mem_filter, List.mem_range, Option.any_eq_true]
  constructor
  · exact fun h => h.2
  · rintro ⟨row, hrow, hout⟩
    exact ⟨(List.getElem?_eq_some_iff.mp hrow).1, row, hrow, hout⟩

theorem outstanding_insert (h : other ∈ (s.insert row).outstanding) :
    other ∈ s.outstanding ∨ other = s.submissions.length := by
  obtain ⟨found, hfound, hout⟩ := mem_outstanding_iff.mp h
  rw [State.insert, List.getElem?_append] at hfound
  split at hfound
  · exact .inl (mem_outstanding_iff.mpr ⟨found, hfound, hout⟩)
  · next hge =>
    have hlt := (List.getElem?_eq_some_iff.mp hfound).1
    rw [List.length_singleton] at hlt
    exact .inr (by omega)

theorem outstanding_save (h : other ∈ (s.save id row).outstanding) :
    other ∈ s.outstanding ∧ other ≠ id ∨ other = id ∧ row.isOutstanding = true := by
  obtain ⟨found, hfound, hout⟩ := mem_outstanding_iff.mp h
  rcases getElem?_set_cases hfound with ⟨rfl, rfl⟩ | ⟨hne, hfound'⟩
  · exact .inr ⟨rfl, hout⟩
  · exact .inl ⟨mem_outstanding_iff.mpr ⟨found, hfound', hout⟩, hne⟩

theorem outstanding_markFailed {attempt : Nat} (h : other ∈ (s.markFailed id attempt).outstanding) :
    other ∈ s.outstanding ∨ other = id := by
  obtain ⟨found, hfound, hout⟩ := mem_outstanding_iff.mp h
  by_cases heq : other = id
  · exact .inr heq
  · refine .inl (mem_outstanding_iff.mpr ⟨found, ?_, hout⟩)
    rw [← hfound]
    exact (List.getElem?_modify_ne _ s.submissions (Ne.symm heq)).symm

/-- All outstanding submissions are one. -/
def State.AtMostOne (s : State) : Prop := ∀ i ∈ s.outstanding, ∀ j ∈ s.outstanding, i = j

theorem atMostOne_of_eq {a : Nat} (h : ∀ i ∈ s.outstanding, i = a) : s.AtMostOne := by
  intro i hi j hj
  rw [h i hi, h j hj]

theorem atMostOne_iff : s.AtMostOne ↔ s.outstanding.length ≤ 1 := by
  have hnodup : s.outstanding.Nodup := List.nodup_range.filter _
  unfold State.AtMostOne
  constructor
  · intro h
    cases hout : s.outstanding with
    | nil => simp
    | cons i rest =>
      cases rest with
      | nil => simp
      | cons j rest =>
        rw [hout] at h hnodup
        have heq : i = j := h i (by simp) j (by simp)
        simp [heq] at hnodup
  · intro h i hi j hj
    obtain ⟨a, ha⟩ := List.length_eq_one_iff.mp (Nat.le_antisymm h (List.length_pos_of_mem hi))
    rw [ha, List.mem_singleton] at hi hj
    rw [hi, hj]

end Submissions

section Passes

variable {s : System} {state : State} {w : Nat} {t : Thread} {pc' : Pc} {queue : Option (List Nat)}

/-- At most one submission is outstanding, but while a retry waits for the answer to its own. -/
def Few (s : System) : Prop :=
  s.state.AtMostOne ∨ ∃ (v : Nat) (u : Thread) (id retried : Nat), s.threads[v]? = some u ∧
    u.pc.attempt = some (id, retried) ∧
    (∀ i ∈ s.state.outstanding, i = retried ∨ i = id) ∧
    ∀ (v' : Nat) (u' : Thread), s.threads[v']? = some u' → v' ≠ v → u'.queue = none

structure Retired (s : System) : Prop where
  few : Few s
  leaves : ∀ left ∈ s.state.leftover, left.length ≤ 1

theorem retired_start (status : SarStatus) : Retired (start status) := by
  constructor
  case few =>
    left
    intro i hi
    simp [start, State.outstanding] at hi
  case leaves => simp [start]

/-- A thread moves and makes no submission outstanding. -/
theorem Few.shrink (h : Few s) (ht : s.threads[w]? = some t)
    (hsub : ∀ i ∈ state.outstanding, i ∈ s.state.outstanding)
    (hattempt : ∀ id retried, t.pc.attempt = some (id, retried) →
      pc'.attempt = some (id, retried) ∨ id ∉ state.outstanding)
    (hqueue : t.queue = none → queue = none) :
    Few { state, threads := s.threads.set w ⟨pc', queue⟩ } := by
  have hlt : w < s.threads.length := (List.getElem?_eq_some_iff.mp ht).1
  rcases h with hone | ⟨v, u, id, retried, hv, hu, hout, hothers⟩
  · exact .inl fun i hi j hj => hone i (hsub i hi) j (hsub j hj)
  · by_cases hvw : v = w
    · subst hvw
      obtain rfl : t = u := Option.some.inj (ht.symm.trans hv)
      rcases hattempt id retried hu with hpc | hnot
      · refine .inr ⟨v, ⟨pc', queue⟩, id, retried, List.getElem?_set_self hlt, hpc,
          fun i hi => hout i (hsub i hi), fun v' u' hv' hne => ?_⟩
        rcases getElem?_set_cases hv' with ⟨heq, _⟩ | ⟨_, hold⟩
        · exact absurd heq hne
        · exact hothers v' u' hold hne
      · refine .inl (atMostOne_of_eq (a := retried) fun i hi => ?_)
        rcases hout i (hsub i hi) with heq | heq
        · exact heq
        · exact absurd (heq ▸ hi) hnot
    · refine .inr ⟨v, u, id, retried, ?_, hu, fun i hi => hout i (hsub i hi),
        fun v' u' hv' hne => ?_⟩
      · rw [List.getElem?_set_ne (Ne.symm hvw)]
        exact hv
      · rcases getElem?_set_cases hv' with ⟨rfl, rfl⟩ | ⟨_, hold⟩
        · exact hqueue (hothers v' t ht hne)
        · exact hothers v' u' hold hne

theorem Few.call {pc : Pc} (h : Few s) (hqueue : queue = none ∨ s.state.AtMostOne) :
    Few (s.call pc queue) := by
  rcases hqueue with hnone | hone
  · rcases h with hone | ⟨v, u, id, retried, hv, hu, hout, hothers⟩
    · exact .inl hone
    · refine .inr ⟨v, u, id, retried, ?_, hu, hout, fun v' u' hv' hne => ?_⟩
      · exact (List.getElem?_append_left (List.getElem?_eq_some_iff.mp hv).1).trans hv
      · rcases getElem?_append_cases hv' with hold | rfl
        · exact hothers v' u' hold hne
        · exact hnone
  · exact .inl hone

/-- A thread moves that is in no retry's attempt, or stays in it. -/
theorem Few.keep (h : Few s) (ht : s.threads[w]? = some t)
    (hsub : ∀ i ∈ state.outstanding, i ∈ s.state.outstanding)
    (hattempt : t.pc.attempt = none ∨ pc'.attempt = t.pc.attempt) :
    Few { state, threads := s.threads.set w ⟨pc', t.queue⟩ } := by
  refine h.shrink ht hsub (fun id retried hpc => .inl ?_) id
  rcases hattempt with hnone | hsame
  · rw [hnone] at hpc
    cases hpc
  · exact hsame.trans hpc

/-- A submission is saved and not outstanding, so that what is left of an attempt is the one that
    it retried. -/
theorem Few.settle {id : Nat} {row : AmlRegulatorySubmission} (h : Few s)
    (ht : s.threads[w]? = some t) (hrow : row.isOutstanding = false)
    (hattempt : ∀ id' retried, t.pc.attempt = some (id', retried) → id' = id) :
    Few { state := s.state.save id row, threads := s.threads.set w ⟨pc', t.queue⟩ } := by
  have hsaved : ∀ i ∈ (s.state.save id row).outstanding, i ∈ s.state.outstanding ∧ i ≠ id := by
    intro i hi
    rcases outstanding_save hi with hold | ⟨-, hout⟩
    · exact hold
    · rw [hrow] at hout
      cases hout
  refine h.shrink ht (fun i hi => (hsaved i hi).1) (fun id' retried hpc => .inr fun hi => ?_)
    fun hqueue => hqueue
  exact (hsaved id' hi).2 (hattempt id' retried hpc)

theorem Few.create {now : Int} {configured : Bool} {answer : Answer}
    {channel : Channel} {retried : Option Nat} (ht : s.threads[w]? = some t)
    (hcareful : StepCareful s w configured (.create channel retried)) :
    Few { state := (proceed s.state now configured answer (.create channel retried)).1,
          threads := s.threads.set w
            ⟨(proceed s.state now configured answer (.create channel retried)).2, t.queue⟩ } := by
  by_cases hempty : s.state.outstanding = []
  · have hone (row : AmlRegulatorySubmission) : (s.state.insert row).AtMostOne := by
      refine atMostOne_of_eq (a := s.state.submissions.length) fun i hi => ?_
      rcases outstanding_insert hi with hold | heq
      · rw [hempty] at hold
        cases hold
      · exact heq
    cases channel with
    | api | manualSecurePortal => exact .inl (hone _)
  · -- then it retries what is outstanding, through the API
    obtain ⟨a, ha⟩ := List.exists_mem_of_ne_nil _ hempty
    obtain ⟨rfl, rfl, hqueues⟩ := hcareful a ha
    have hlt : w < s.threads.length := (List.getElem?_eq_some_iff.mp ht).1
    refine .inr ⟨w, _, s.state.submissions.length, a, List.getElem?_set_self hlt, rfl,
      fun i hi => ?_, fun v u hv hne => ?_⟩
    · rcases outstanding_insert hi with hold | heq
      · exact .inl (Option.some.inj (hcareful i hold).1).symm
      · exact .inr heq
    · rcases getElem?_set_cases hv with ⟨heq, _⟩ | ⟨_, hold⟩
      · exact absurd heq hne
      · exact hqueues u (List.mem_eraseIdx_iff_getElem?.mpr ⟨v, hne, hold⟩)

/-- What a step leaves outstanding. -/
theorem proceed_few {now : Int} {configured : Bool} {answer : Answer} (h : Few s)
    (ht : s.threads[w]? = some t) (hcareful : StepCareful s w configured t.pc) :
    Few { state := (proceed s.state now configured answer t.pc).1,
          threads := s.threads.set w ⟨(proceed s.state now configured answer t.pc).2, t.queue⟩ } := by
  have hsame : t.pc.attempt = none → ∀ {state : State} {pc' : Pc},
      (∀ i ∈ state.outstanding, i ∈ s.state.outstanding) →
      Few { state, threads := s.threads.set w ⟨pc', t.queue⟩ } :=
    fun hnone _ _ hsub => h.keep ht hsub (.inl hnone)
  have hone : ∀ {state : State} {pc' : Pc} (a : Nat), (∀ i ∈ state.outstanding, i = a) →
      Few { state, threads := s.threads.set w ⟨pc', t.queue⟩ } :=
    fun _ heq => .inl (atMostOne_of_eq heq)
  cases hpc : t.pc with
  | create channel retried =>
    rw [hpc] at hcareful
    exact Few.create ht hcareful
  | post id submission retried =>
    have hkept : ∀ {state : State} {pc' : Pc},
        (∀ i ∈ state.outstanding, i ∈ s.state.outstanding) →
        pc'.attempt = (Pc.post id submission retried).attempt →
        Few { state, threads := s.threads.set w ⟨pc', t.queue⟩ } := by
      intro state pc' hsub hpc'
      rw [← hpc] at hpc'
      exact h.keep ht hsub (.inr hpc')
    cases answer with
    | accepted reference => cases retried <;> exact hkept (fun i hi => hi) rfl
    | rejected => cases retried <;> exact hkept (fun i hi => hi) rfl
    | timedOut taken => cases taken <;> cases retried <;> exact hkept (fun i hi => hi) rfl
  | saveAccepted id submission reference retried =>
    refine h.settle ht rfl fun id' retried' hattempt => ?_
    rw [hpc] at hattempt
    cases retried <;> cases hattempt
    rfl
  | saveRefused id submission status retried =>
    rw [hpc] at hcareful
    by_cases hstatus : status = .rejected
    · subst hstatus
      refine h.settle ht rfl fun id' retried' hattempt => ?_
      rw [hpc] at hattempt
      cases retried <;> cases hattempt
      rfl
    · refine hone id fun i hi => ?_
      rcases outstanding_save hi with ⟨hold, -⟩ | ⟨heq, -⟩
      · exact hcareful hstatus i hold
      · exact heq
  | markFailed id previous status =>
    rw [hpc] at hcareful
    refine hone id fun i hi => ?_
    rcases outstanding_markFailed hi with hold | heq
    · exact hcareful i hold
    · exact heq
  | saveAcknowledged id submission reference =>
    refine h.settle ht rfl fun id' retried' hattempt => ?_
    rw [hpc] at hattempt
    cases hattempt
  | submit manualFiling retried =>
    simp only [proceed]
    split <;> exact hsame (by rw [hpc]; rfl) fun i hi => hi
  | retry id =>
    simp only [proceed]
    split
    · exact hsame (by rw [hpc]; rfl) fun i hi => hi
    · split <;> exact hsame (by rw [hpc]; rfl) fun i hi => hi
  | markAcknowledged id reference =>
    simp only [proceed]
    split <;> exact hsame (by rw [hpc]; rfl) fun i hi => hi
  | file _ _ _ | audit _ _ _ | findReport _ _ | reopen _ | acknowledge _ | done =>
    exact hsame (by rw [hpc]; rfl) fun i hi => hi

theorem throw_few (h : Few s) (ht : s.threads[w]? = some t) (hcareful : MayThrow s t.pc) :
    Few { state := (throw s.state t.pc).1,
          threads := s.threads.set w ⟨(throw s.state t.pc).2, t.queue⟩ } := by
  have hkept : ∀ {state : State} {pc' : Pc} (pc : Pc), t.pc = pc →
      (∀ i ∈ state.outstanding, i ∈ s.state.outstanding) →
      (pc.attempt = none ∨ pc'.attempt = pc.attempt) →
      Few { state, threads := s.threads.set w ⟨pc', t.queue⟩ } := by
    rintro state pc' pc rfl hsub hor
    exact h.keep ht hsub hor
  cases hpc : t.pc with
  | saveRefused id submission status retried =>
    rw [hpc] at hcareful
    exact .inl (atMostOne_of_eq hcareful)
  | post id submission retried =>
    exact hkept _ hpc (fun i hi => hi) (.inr (by cases retried <;> rfl))
  | saveAccepted id submission reference retried =>
    exact hkept _ hpc (fun i hi => hi) (.inr (by cases retried <;> rfl))
  | _ => exact hkept _ hpc (fun i hi => hi) (.inl rfl)

/-- A retry pass goes on, or ends. -/
theorem Retired.advance {s' : System} (h : Retired s) (ht : s.threads[w]? = some t)
    (hdone : t.pc = .done) (hstep : s.advance w t.queue = some s') : Retired s' := by
  have hattempt : ∀ {state : State} (pc' : Pc) (id retried : Nat),
      t.pc.attempt = some (id, retried) →
        pc'.attempt = some (id, retried) ∨ id ∉ state.outstanding := by
    intro state pc' id retried hpc
    rw [hdone] at hpc
    cases hpc
  cases hqueue : t.queue with
  | none =>
    rw [hqueue] at hstep
    cases hstep
  | some queue =>
    cases queue with
    | nil =>
      rw [hqueue] at hstep
      cases hstep
      constructor
      case few =>
        exact h.few.shrink ht (fun i hi => hi) (hattempt _) fun _ => rfl
      case leaves =>
        intro left hleft
        rcases List.mem_append.mp hleft with hold | hnew
        · exact h.leaves left hold
        · rw [List.mem_singleton.mp hnew]
          refine atMostOne_iff.mp ?_
          rcases h.few with hone | ⟨v, u, id, retried, hv, hu, -, hothers⟩
          · exact hone
          · -- no pass is under way beside the retry
            have hne : w ≠ v := by
              rintro rfl
              rw [ht] at hv
              rw [← Option.some.inj hv, hdone] at hu
              cases hu
            rw [hothers w t ht hne] at hqueue
            cases hqueue
    | cons id queue =>
      rw [hqueue] at hstep
      cases hstep
      constructor
      case few =>
        refine h.few.shrink ht (fun i hi => hi) (hattempt _) fun hnone => ?_
        rw [hnone] at hqueue
        cases hqueue
      case leaves => exact h.leaves

end Passes

/-! ## Runs -/

section Runs

variable {s s' : System} {status : SarStatus}

/-- No step writes what the passes left but the end of a pass. -/
theorem stepPc_leftover (s : State) (input : Input) (pc : Pc) :
    (stepPc s input pc).1.leftover = s.leftover := by
  unfold stepPc
  split
  · cases pc <;> rfl
  · cases pc with
    | create channel retried => cases channel <;> rfl
    | post id submission retried =>
      simp only [proceed]
      split <;> rfl
    | submit manualFiling retried =>
      simp only [proceed]
      split <;> rfl
    | retry id =>
      simp only [proceed]
      split
      · rfl
      · split <;> rfl
    | markAcknowledged id reference =>
      simp only [proceed]
      split <;> rfl
    | _ => rfl

theorem next_keeps {a : Action} (h : Told s ∧ Retired s) (hstep : next s a = some s')
    (hcareful : Careful s a) : Told s' ∧ Retired s' := by
  obtain ⟨htold, hretired⟩ := h
  cases a with
  | submit manualFiling =>
    cases hstep
    exact ⟨htold.call rfl trivial, hretired.few.call (.inl rfl), hretired.leaves⟩
  | retry id =>
    cases hstep
    exact ⟨htold.call rfl trivial, hretired.few.call (.inl rfl), hretired.leaves⟩
  | markAcknowledged id reference =>
    cases hstep
    exact ⟨htold.call rfl trivial, hretired.few.call (.inl rfl), hretired.leaves⟩
  | retryPendingSubmissions room =>
    cases hstep
    have hone : s.state.AtMostOne := atMostOne_iff.mpr hcareful
    exact ⟨htold.call rfl trivial, hretired.few.call (.inr hone), hretired.leaves⟩
  | run w input =>
    simp only [next, Option.bind_eq_bind, Option.bind_eq_some_iff] at hstep
    obtain ⟨t, ht, hstep⟩ := hstep
    have ht' := hcareful t ht
    split at hstep
    · next hdone => exact ⟨htold.advance ht hdone hstep, hretired.advance ht hdone hstep⟩
    · obtain rfl := Option.some.inj hstep
      have hleaves : ∀ left ∈ (stepPc s.state input t.pc).1.leftover, left.length ≤ 1 := by
        rw [stepPc_leftover]
        exact hretired.leaves
      unfold stepPc at hleaves ⊢
      split at ht'
      · next hthrows =>
        rw [if_pos hthrows] at hleaves ⊢
        exact ⟨htold.set ht (throw_tells htold t.pc), throw_few hretired.few ht ht', hleaves⟩
      · next hthrows =>
        rw [if_neg hthrows] at hleaves ⊢
        exact ⟨htold.set ht (proceed_tells htold ht ht'), proceed_few hretired.few ht ht', hleaves⟩

/-- As long as every step is as `Careful` says, in every state the authority has taken the report
    once at most, a report that was filed is filed, and each pass left one submission at most. -/
theorem filed_once {xs : List (Step System Action)} (hrun : FilingRun status xs s)
    (hcareful : ∀ x ∈ xs, Careful x.pre x.act) : FiledOnce s.state := by
  have hinv : Told s ∧ Retired s :=
    hrun.invariant (fun s => Told s ∧ Retired s) ⟨told_start status, retired_start status⟩
      fun x hx hstep h => next_keeps h hstep (hcareful x hx)
  exact ⟨hinv.1.once, hinv.1.stays, hinv.2.leaves⟩

end Runs

/-! ## A report that is filed twice -/

/-- A step that finds the transport configured and the authority answering so. -/
def answered (answer : Answer) : Input := ⟨0, true, false, answer⟩

/-- The steps of a thread, all with one answer of the authority. -/
def steps (w n : Nat) (answer : Answer) : List Action := List.replicate n (.run w (answered answer))

/-- The authority does not answer the first request, and a pass retries it. -/
def retriedActions : List Action :=
  .submit false :: steps 0 4 (.timedOut false) ++
    .retryPendingSubmissions 20 :: steps 1 11 (.accepted (some "FIU-1"))

theorem filed_once_retried :
    FiledOnce (replay next (start .reviewed) retriedActions).2.state ∧
      (replay next (start .reviewed) retriedActions).2.state.taken = [1] := by
  have hrun := run_replay next (start .reviewed) retriedActions
  exact ⟨filed_once hrun (by decide +kernel), by decide +kernel⟩

/-- The next pass finds the submission that was retried still failed, and files again. -/
def twiceActions : List Action :=
  retriedActions ++ .retryPendingSubmissions 20 :: steps 2 12 (.accepted (some "FIU-2"))

theorem filed_twice :
    ¬ ∀ (status : SarStatus) (xs : List (Step System Action)) (s : System),
      FilingRun status xs s → FiledOnce s.state := by
  intro h
  have honce := (h .reviewed _ _ (run_replay next (start .reviewed) twiceActions)).once
  revert honce
  decide +kernel

end AgriFi.RegulatoryReporting
