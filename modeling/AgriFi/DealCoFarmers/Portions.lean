import AgriFi.DealCoFarmers.Service
import Mathlib.Algebra.BigOperators.Group.List.Basic
import Mathlib.Algebra.Order.BigOperators.Group.List
import Mathlib.Algebra.Order.Ring.Rat
import Mathlib.Data.List.Nodup
import Mathlib.Data.Rat.Floor
import Mathlib.Tactic.Linarith
import Mathlib.Tactic.NormNum

/-
  The portions of a deal's co-farmers. An invitation may be made while the deal is open, so a deal
  that went live when every co-farmer was accepted and verified can have one that is neither,
  and two invitations that are checked before either is saved take more than the whole
  (`unverified_and_exceeded`). `portions_fit`: while no invitation is saved over portions
  that have grown since they were read, and no acceptance over a row that is not live any more, the
  portions of a deal fit, and until a later invitation everyone on a deal that went live is
  verified.
-/

namespace AgriFi.DealCoFarmers

open AgriFi.Investments AgriFi.Rows AgriFi.Runs AgriFi.Threads
open AgriFi.DealDelivered (Outcome)
open AgriFi.EscrowService (PayoutParticipant mathRound payoutParticipants)

variable {setup : Setup} {s s' : State} {sys sys' : System} {pc pc' : Pc} {o : Outcome}
  {now : Int} {w : Nat} {record read : DealCoFarmer} {rows : List DealCoFarmer}

/-! ## What is claimed -/

def DealCoFarmer.Live (r : DealCoFarmer) : Prop := r.status ≠ .declined ∧ r.status ≠ .removed

instance (r : DealCoFarmer) : Decidable r.Live := inferInstanceAs (Decidable (_ ∧ _))

def DealCoFarmer.livePortion (r : DealCoFarmer) : Nat := if r.Live then r.portionPercent else 0

/-- The portions of the live rows, in hundredths. -/
def livePortions (rows : List DealCoFarmer) : Nat := (rows.map DealCoFarmer.livePortion).sum

/-- The accepted rows as `distributePayment` finds them. -/
def Setup.acceptedCoFarmers (setup : Setup) (s : State) :
    List (EscrowService.DealCoFarmer String String) :=
  (s.rows.filter fun r => r.status = .accepted).map fun r =>
    ⟨r.farmerId, (setup.users.find? (·.id = r.farmerId)).bind (·.walletAddress),
      r.portionPercent / 100⟩

structure Fitting (setup : Setup) (s : State) : Prop where
  positive : ∀ r ∈ s.rows, r.Live → 0 < r.portionPercent
  total : livePortions s.rows ≤ 10000
  weights : ∀ deal, (∀ p ∈ payoutParticipants deal (setup.acceptedCoFarmers s),
      0 ≤ p.portionPercent) ∧
    ((payoutParticipants deal (setup.acceptedCoFarmers s)).map PayoutParticipant.weight).sum = 100
  once : ((s.rows.filter fun r => decide r.Live).map (·.farmerId)).Nodup

/-- Every live co-farmer is accepted and verified. -/
def AllVerified (setup : Setup) (s : State) : Prop :=
  ∀ r ∈ s.rows, r.Live → r.status = .accepted ∧ setup.kycStatus r.farmerId = some "verified"

instance : Decidable (AllVerified setup s) :=
  inferInstanceAs (Decidable (∀ r ∈ s.rows, _))

/-! ## Overlapping calls -/

/-- The save of an invitation meets no larger portions than were read, and that of an acceptance a
    live row with the portion that was read. -/
def Pc.Fresh (s : State) : Pc → Prop
  | .saveInvitation _ committedPortions record =>
    s.committedPortions record.farmerId ≤ committedPortions
  | .saveAccepted read => ∃ r ∈ s.rows, r.farmerId = read.farmerId ∧ r.Live ∧
    r.portionPercent = read.portionPercent
  | _ => True

instance : (pc : Pc) → Decidable (pc.Fresh s)
  | .saveInvitation _ _ _ => inferInstanceAs (Decidable (_ ≤ _))
  | .saveAccepted _ => inferInstanceAs (Decidable (∃ r ∈ s.rows, _))
  | .inviteFindDeal .. | .inviteFindTarget .. | .inviteFindExisting .. | .inviteFindRows ..
  | .acceptFind .. | .declineFind .. | .saveDeclined .. | .removeFindDeal .. | .removeFind ..
  | .saveRemoved .. | .assertAllCoFarmersVerified .. | .publishDeal .. | .openDeal | .returned
  | .threw .. => isTrue trivial

def Fresh (sys : System) : Action → Prop
  | .run w o _ => o ≠ .fail → ∀ pc ∈ sys.threads[w]?, pc.Fresh sys.state
  | _ => True

instance : (a : Action) → Decidable (Fresh sys a)
  | .run _ _ _ => inferInstanceAs (Decidable (_ → ∀ pc ∈ sys.threads[_]?, _))
  | .inviteCoFarmer .. | .acceptInvitation .. | .declineInvitation .. | .removeCoFarmer ..
  | .publishDeal .. | .setStatus .. => isTrue trivial

/-! ## Sums of portions -/

/-- The live portions of the other farmers. -/
def otherPortions (farmerId : String) (rows : List DealCoFarmer) : Nat :=
  (rows.map fun r => if r.farmerId = farmerId then 0 else r.livePortion).sum

theorem livePortions_cons (r : DealCoFarmer) (rows : List DealCoFarmer) :
    livePortions (r :: rows) = r.livePortion + livePortions rows := rfl

theorem otherPortions_cons (farmerId : String) (r : DealCoFarmer) (rows : List DealCoFarmer) :
    otherPortions farmerId (r :: rows) =
      (if r.farmerId = farmerId then 0 else r.livePortion) + otherPortions farmerId rows := rfl

theorem otherPortions_le (rows : List DealCoFarmer) (farmerId : String) :
    otherPortions farmerId rows ≤ livePortions rows := by
  unfold otherPortions livePortions
  refine List.sum_le_sum fun x _ => ?_
  split
  · exact Nat.zero_le _
  · exact Nat.le_refl _

theorem livePortion_le (r : DealCoFarmer) : r.livePortion ≤ r.portionPercent := by
  unfold DealCoFarmer.livePortion
  split <;> omega

theorem otherPortions_le_committed (s : State) (farmerId : String) :
    otherPortions farmerId s.rows ≤ s.committedPortions farmerId := by
  unfold State.committedPortions
  induction s.rows with
  | nil => exact Nat.le_refl 0
  | cons r rows ih =>
    rw [otherPortions_cons, List.filter_cons]
    by_cases hcounts : (decide (r.status ≠ .removed) && decide (r.farmerId ≠ farmerId)) = true
    · rw [if_pos hcounts, List.map_cons, List.sum_cons]
      have := livePortion_le r
      split <;> omega
    · have hzero : (if r.farmerId = farmerId then 0 else r.livePortion) = 0 := by
        by_cases hsame : r.farmerId = farmerId
        · exact if_pos hsame
        · rw [if_neg hsame]
          exact if_neg fun hlive => hcounts (by simp [hlive.2, hsame])
      rw [if_neg hcounts, hzero, Nat.zero_add]
      exact ih

theorem otherPortions_of_not_mem {farmerId : String}
    (h : farmerId ∉ rows.map (·.farmerId)) : otherPortions farmerId rows = livePortions rows := by
  unfold otherPortions livePortions
  refine congrArg List.sum (List.map_congr_left fun r hr => if_neg fun heq => ?_)
  exact h (heq ▸ List.mem_map_of_mem hr)

theorem otherPortions_add_le (hread : read ∈ rows) :
    otherPortions read.farmerId rows + read.livePortion ≤ livePortions rows := by
  induction rows with
  | nil => exact absurd hread List.not_mem_nil
  | cons r rows ih =>
    rw [otherPortions_cons, livePortions_cons]
    rcases List.mem_cons.mp hread with rfl | hrest
    · have hle := otherPortions_le rows read.farmerId
      rw [if_pos rfl]
      omega
    · have := ih hrest
      split <;> omega

/-- A row is written over. -/
theorem livePortions_save (hnodup : (rows.map (·.farmerId)).Nodup) (record : DealCoFarmer) :
    livePortions (update (·.farmerId = record.farmerId) (fun _ => record) rows) ≤
      otherPortions record.farmerId rows + record.livePortion := by
  induction rows with
  | nil => exact Nat.zero_le _
  | cons r rows ih =>
    rw [List.map_cons, List.nodup_cons] at hnodup
    by_cases hsame : r.farmerId = record.farmerId
    · -- no other row is of this farmer
      have hrest : update (·.farmerId = record.farmerId) (fun _ => record) rows = rows := by
        refine (List.map_congr_left fun x hx => if_neg fun heq => ?_).trans (List.map_id rows)
        exact hnodup.1 (hsame ▸ of_decide_eq_true heq ▸ List.mem_map_of_mem hx)
      have hothers := otherPortions_of_not_mem (hsame ▸ hnodup.1)
      unfold update at hrest ⊢
      rw [List.map_cons, hrest, if_pos (decide_eq_true hsame), livePortions_cons,
        otherPortions_cons, if_pos hsame, hothers]
      dsimp only
      omega
    · have hle := ih hnodup.2
      unfold update at hle ⊢
      rw [List.map_cons, if_neg (by simpa using hsame), livePortions_cons, otherPortions_cons,
        if_neg hsame]
      omega

/-! ## What is left for a portion -/

theorem percentColumn_pos (dto : InviteCoFarmerDto) : 0 < percentColumn dto.portionPercent := by
  have hone : 1 ≤ mathRound (100 * dto.portionPercent) := by
    unfold mathRound
    rw [Int.le_floor]
    have := dto.least
    push_cast
    linarith
  unfold percentColumn
  omega

/-- Rounding to hundredths does not go over what is left. -/
theorem add_percentColumn_le {committed : Nat} (dto : InviteCoFarmerDto)
    (h : ¬ 100 < (committed : Rat) / 100 + dto.portionPercent) :
    committed + percentColumn dto.portionPercent ≤ 10000 := by
  have hround : mathRound (100 * dto.portionPercent) ≤ 10000 - committed := by
    unfold mathRound
    rw [← Int.lt_add_one_iff, Int.floor_lt]
    push_cast
    linarith
  have hpos := percentColumn_pos dto
  unfold percentColumn at *
  omega

/-! ## The invariant -/

/-- What a pending save writes. -/
def Pc.Fits : Pc → Prop
  | .saveInvitation _ committedPortions record =>
    0 < record.portionPercent ∧ committedPortions + record.portionPercent ≤ 10000
  | .saveAccepted read | .saveDeclined read | .saveRemoved read => 0 < read.portionPercent
  | _ => True

structure Inv (setup : Setup) (sys : System) : Prop where
  nodup : (sys.state.rows.map (·.farmerId)).Nodup
  positive : ∀ r ∈ sys.state.rows, 0 < r.portionPercent
  total : livePortions sys.state.rows ≤ 10000
  verified : sys.state.invitedSince = false → AllVerified setup sys.state
  fits : ∀ pc ∈ sys.threads, pc.Fits

theorem mem_of_findOne {farmerId : String} (h : s.findOne farmerId = some record) :
    record ∈ s.rows := List.mem_of_find?_eq_some h

theorem record_of_findInvitation {userId : String} (h : findInvitation s userId = .ok record) :
    record ∈ s.rows := by
  unfold findInvitation at h
  split at h
  · cases h
  · next found hfound =>
    split at h
    · cases h
    · split at h
      · cases h
      · obtain rfl := Except.ok.inj h
        exact mem_of_findOne hfound

theorem fits_onOk (h : pc.Fits) : (onOk pc o).Fits := by
  unfold onOk
  split
  · exact h
  · trivial

/-- A call of which a query has moved it to `pc'`, with the rows as they were. -/
theorem Inv.moves (h : Inv setup sys) (hfits : pc'.Fits) :
    Inv setup ⟨sys.state, sys.threads.set w pc'⟩ :=
  ⟨h.nodup, h.positive, h.total, h.verified,
    forall_mem_set (fun _ _ hx _ => h.fits _ (List.mem_of_getElem? hx)) hfits⟩

theorem mem_save {r : DealCoFarmer} (h : r ∈ (s.save record).rows) : r = record ∨ r ∈ s.rows := by
  rcases mem_update.mp h with ⟨x, -, -, rfl⟩ | ⟨hr, -⟩
  · exact .inl rfl
  · exact .inr hr

theorem nodup_save (h : (s.rows.map (·.farmerId)).Nodup) (record : DealCoFarmer) :
    ((s.save record).rows.map (·.farmerId)).Nodup := by
  have hsame : (s.save record).rows.map (·.farmerId) = s.rows.map (·.farmerId) := by
    unfold State.save update
    rw [List.map_map]
    refine List.map_congr_left fun r _ => ?_
    show DealCoFarmer.farmerId (if _ then record else r) = r.farmerId
    split
    case isTrue heq => exact (of_decide_eq_true heq).symm
    case isFalse => rfl
  rwa [hsame]

/-- A row is saved that leaves the portions within the whole. -/
theorem Inv.save (h : Inv setup sys) (hpositive : 0 < record.portionPercent)
    (hroom : otherPortions record.farmerId sys.state.rows + record.livePortion ≤ 10000)
    (hverified : sys.state.invitedSince = false → record.Live →
      record.status = .accepted ∧ setup.kycStatus record.farmerId = some "verified")
    (hfits : pc'.Fits) :
    Inv setup ⟨sys.state.save record, sys.threads.set w pc'⟩ := by
  constructor
  case nodup => exact nodup_save h.nodup record
  case positive =>
    intro r hr
    rcases mem_save hr with rfl | hold
    · exact hpositive
    · exact h.positive r hold
  case total => exact (livePortions_save h.nodup record).trans hroom
  case verified =>
    intro hsince r hr hlive
    rcases mem_save hr with rfl | hold
    · exact hverified hsince hlive
    · exact h.verified hsince r hold hlive
  case fits => exact forall_mem_set (fun _ _ hx _ => h.fits _ (List.mem_of_getElem? hx)) hfits

/-- A row that is saved as declined or removed. -/
theorem Inv.saveDead (h : Inv setup sys) (hpositive : 0 < record.portionPercent)
    (hdead : ¬ record.Live) (hfits : pc'.Fits) :
    Inv setup ⟨sys.state.save record, sys.threads.set w pc'⟩ := by
  refine h.save hpositive ?_ (fun _ hlive => absurd hlive hdead) hfits
  have hzero : record.livePortion = 0 := if_neg hdead
  have hle := otherPortions_le sys.state.rows record.farmerId
  have htotal := h.total
  omega

theorem Inv.saveAccepted (h : Inv setup sys) (hpositive : 0 < read.portionPercent)
    (hfresh : Pc.Fresh sys.state (.saveAccepted read)) (hfits : pc'.Fits) :
    Inv setup ⟨sys.state.save read.accepted, sys.threads.set w pc'⟩ := by
  obtain ⟨r, hr, hsame, hlive, hportion⟩ := hfresh
  refine h.save hpositive ?_ (fun hsince _ => ⟨rfl, ?_⟩) hfits
  · have hle := otherPortions_add_le hr
    have hmine : r.livePortion = read.accepted.livePortion :=
      (if_pos hlive).trans (hportion.trans (if_pos ⟨nofun, nofun⟩).symm)
    have htotal := h.total
    rw [hsame, hmine] at hle
    exact hle.trans htotal
  · show setup.kycStatus read.farmerId = _
    rw [← hsame]
    exact (h.verified hsince r hr hlive).2

theorem Inv.saveInvitation {existing : Option DealCoFarmer} {committed : Nat} (h : Inv setup sys)
    (hpending : Pc.Fits (.saveInvitation existing committed record))
    (hfresh : Pc.Fresh sys.state (.saveInvitation existing committed record))
    (hsaved : sys.state.saveInvitation existing record = some s') (hfits : pc'.Fits) :
    Inv setup ⟨s', sys.threads.set w pc'⟩ := by
  obtain ⟨hpositive, hroom⟩ := hpending
  have hle := otherPortions_le_committed sys.state record.farmerId
  have hmine := livePortion_le record
  have hfresh : sys.state.committedPortions record.farmerId ≤ committed := hfresh
  unfold State.saveInvitation at hsaved
  split at hsaved
  case isTrue =>
    obtain rfl := Option.some.inj hsaved
    have hinvited : Inv setup ⟨{ sys.state with invitedSince := true }, sys.threads⟩ :=
      ⟨h.nodup, h.positive, h.total, nofun, h.fits⟩
    exact hinvited.save hpositive (by dsimp only; omega) nofun hfits
  case isFalse =>
    split at hsaved
    case isTrue => cases hsaved
    case isFalse hnew =>
      obtain rfl := Option.some.inj hsaved
      constructor
      case nodup =>
        rw [List.map_append, List.map_singleton]
        exact List.nodup_append_comm.mpr (List.nodup_cons.mpr ⟨hnew, h.nodup⟩)
      case positive => exact forall_mem_append h.positive hpositive
      case total =>
        have hothers := otherPortions_of_not_mem hnew
        show livePortions (sys.state.rows ++ [record]) ≤ 10000
        unfold livePortions at *
        rw [List.map_append, List.sum_append, List.map_singleton, List.sum_singleton]
        omega
      case verified => exact nofun
      case fits =>
        exact forall_mem_set (fun _ _ hx _ => h.fits _ (List.mem_of_getElem? hx)) hfits

theorem allVerified_of_blocking (h : s.rows.filterMap setup.blocking = []) :
    AllVerified setup s := by
  intro r hr hlive
  have hnone := List.filterMap_eq_nil_iff.mp h r hr
  unfold Setup.blocking at hnone
  rw [if_neg hlive.2] at hnone
  split at hnone
  case isTrue => cases hnone
  case isFalse haccepted =>
    split at hnone
    case isTrue => cases hnone
    case isFalse hverified => exact ⟨not_not.mp haccepted, not_not.mp hverified⟩

/-! ## Steps -/

theorem inviteCoFarmer_fits {inviterId token : String} {dto : InviteCoFarmerDto} :
    (inviteCoFarmer inviterId dto token).Fits := by
  unfold inviteCoFarmer
  split <;> trivial

theorem stepInviteFindRows_fits {target : User} {existing : Option DealCoFarmer}
    {dto : InviteCoFarmerDto} {token : String} :
    (stepInviteFindRows s now target existing dto token).Fits := by
  unfold stepInviteFindRows
  dsimp only
  split
  case isTrue => trivial
  case isFalse hleft => exact ⟨percentColumn_pos dto, add_percentColumn_le dto hleft⟩

theorem written_cases (P : State → Prop) (hs : P s) (hs' : o ≠ .fail → P s') :
    P (written s s' o) := by
  cases o with
  | fail => exact hs
  | ok | lost => exact hs' nofun

theorem fits_onWritten : (onWritten o).Fits := fits_onOk trivial

theorem Inv.written (h : Inv setup sys) (hfits : pc'.Fits)
    (hsaved : o ≠ .fail → Inv setup ⟨s', sys.threads.set w pc'⟩) :
    Inv setup ⟨written sys.state s' o, sys.threads.set w pc'⟩ :=
  written_cases (fun state => Inv setup ⟨state, sys.threads.set w pc'⟩) (h.moves hfits) hsaved

theorem Inv.run (h : Inv setup sys) (hw : sys.threads[w]? = some pc)
    (hfresh : o ≠ .fail → pc.Fresh sys.state)
    (hstep : setup.step sys.state o now pc = some (s', pc')) :
    Inv setup ⟨s', sys.threads.set w pc'⟩ := by
  have hpending : pc.Fits := h.fits pc (List.mem_of_getElem? hw)
  cases pc with
  | inviteFindDeal inviterId dto token =>
    obtain ⟨rfl, rfl⟩ := Prod.mk.inj (Option.some.inj hstep)
    refine h.moves (fits_onOk ?_)
    unfold Setup.stepInviteFindDeal
    split
    · trivial
    · split <;> trivial
  | inviteFindTarget dto token =>
    obtain ⟨rfl, rfl⟩ := Prod.mk.inj (Option.some.inj hstep)
    refine h.moves (fits_onOk ?_)
    unfold Setup.stepInviteFindTarget
    split
    · trivial
    · split
      · trivial
      · split <;> trivial
  | inviteFindExisting target dto token =>
    obtain ⟨rfl, rfl⟩ := Prod.mk.inj (Option.some.inj hstep)
    refine h.moves (fits_onOk ?_)
    unfold stepInviteFindExisting
    split
    · trivial
    · split <;> trivial
  | inviteFindRows target existing dto token =>
    obtain ⟨rfl, rfl⟩ := Prod.mk.inj (Option.some.inj hstep)
    exact h.moves (fits_onOk stepInviteFindRows_fits)
  | saveInvitation existing committed record =>
    simp only [Setup.step] at hstep
    split at hstep
    · obtain ⟨rfl, rfl⟩ := Prod.mk.inj (Option.some.inj hstep)
      exact h.moves trivial
    · next saved hsaved =>
      obtain ⟨rfl, rfl⟩ := Prod.mk.inj (Option.some.inj hstep)
      exact h.written fits_onWritten fun hsent =>
        h.saveInvitation hpending (hfresh hsent) hsaved fits_onWritten
  | acceptFind userId token =>
    obtain ⟨rfl, rfl⟩ := Prod.mk.inj (Option.some.inj hstep)
    refine h.moves (fits_onOk ?_)
    unfold stepAcceptFind
    split
    · trivial
    · next record hfound =>
      split
      · exact h.positive record (record_of_findInvitation hfound)
      · trivial
  | saveAccepted read =>
    obtain ⟨rfl, rfl⟩ := Prod.mk.inj (Option.some.inj hstep)
    exact h.written fits_onWritten fun hsent =>
      h.saveAccepted hpending (hfresh hsent) fits_onWritten
  | declineFind userId token =>
    obtain ⟨rfl, rfl⟩ := Prod.mk.inj (Option.some.inj hstep)
    refine h.moves (fits_onOk ?_)
    unfold stepDeclineFind
    split
    · trivial
    · next record hfound =>
      split
      · exact h.positive record (record_of_findInvitation hfound)
      · trivial
  | saveDeclined read =>
    obtain ⟨rfl, rfl⟩ := Prod.mk.inj (Option.some.inj hstep)
    exact h.written fits_onWritten fun _ =>
      h.saveDead hpending (fun hlive => hlive.1 rfl) fits_onWritten
  | removeFindDeal farmerId requesterId =>
    obtain ⟨rfl, rfl⟩ := Prod.mk.inj (Option.some.inj hstep)
    refine h.moves (fits_onOk ?_)
    unfold Setup.stepRemoveFindDeal
    split
    · trivial
    · split <;> trivial
  | removeFind farmerId =>
    obtain ⟨rfl, rfl⟩ := Prod.mk.inj (Option.some.inj hstep)
    refine h.moves (fits_onOk ?_)
    unfold stepRemoveFind
    split
    · trivial
    · next record hfound => exact h.positive record (mem_of_findOne hfound)
  | saveRemoved read =>
    obtain ⟨rfl, rfl⟩ := Prod.mk.inj (Option.some.inj hstep)
    exact h.written fits_onWritten fun _ =>
      h.saveDead hpending (fun hlive => hlive.2 rfl) fits_onWritten
  | assertAllCoFarmersVerified traderId =>
    simp only [Setup.step, Setup.stepAssertVerified] at hstep
    have hstep := Option.some.inj hstep
    split at hstep
    · obtain ⟨rfl, rfl⟩ := Prod.mk.inj hstep
      exact h.moves trivial
    · split at hstep
      · next hnone =>
        obtain ⟨rfl, rfl⟩ := Prod.mk.inj hstep
        have hverified : Inv setup ⟨{ sys.state with invitedSince := false }, sys.threads⟩ :=
          ⟨h.nodup, h.positive, h.total, fun _ => allVerified_of_blocking hnone, h.fits⟩
        exact hverified.moves trivial
      · obtain ⟨rfl, rfl⟩ := Prod.mk.inj hstep
        exact h.moves trivial
  | publishDeal traderId =>
    obtain ⟨rfl, rfl⟩ := Prod.mk.inj (Option.some.inj hstep)
    refine h.moves (fits_onOk ?_)
    unfold Setup.stepPublishDeal
    split
    · trivial
    · split
      · trivial
      · split <;> trivial
  | openDeal =>
    obtain ⟨rfl, rfl⟩ := Prod.mk.inj (Option.some.inj hstep)
    have hopened : Inv setup ⟨{ sys.state with status := .opened, activated := true },
        sys.threads⟩ := ⟨h.nodup, h.positive, h.total, h.verified, h.fits⟩
    exact h.written fits_onWritten fun _ => hopened.moves fits_onWritten
  | returned | threw => cases hstep

theorem Inv.join (h : Inv setup sys) (hfits : pc.Fits) : Inv setup (sys.join pc) :=
  ⟨h.nodup, h.positive, h.total, h.verified, forall_mem_append h.fits hfits⟩

theorem Inv.next {a : Action} (h : Inv setup sys) (hfresh : Fresh sys a)
    (hnext : setup.next sys a = some sys') : Inv setup sys' := by
  cases a with
  | inviteCoFarmer inviterId dto token =>
    obtain rfl := Option.some.inj hnext
    exact h.join inviteCoFarmer_fits
  | acceptInvitation | declineInvitation | removeCoFarmer | publishDeal =>
    obtain rfl := Option.some.inj hnext
    exact h.join trivial
  | setStatus status =>
    obtain rfl := Option.some.inj hnext
    exact ⟨h.nodup, h.positive, h.total, h.verified, h.fits⟩
  | run w o now =>
    obtain ⟨pc, hw, hnext⟩ := Option.bind_eq_some_iff.mp hnext
    obtain ⟨⟨s', pc'⟩, hstep, hnext⟩ := Option.bind_eq_some_iff.mp hnext
    obtain rfl := Option.some.inj hnext
    exact h.run hw (fun hsent => hfresh hsent pc hw) hstep

/-! ## The weights of the payout -/

theorem sum_accepted (setup : Setup) (s : State) :
    ((setup.acceptedCoFarmers s).map (·.portionPercent)).sum =
      (((s.rows.filter fun r => r.status = .accepted).map (·.portionPercent)).sum : Nat) / 100 := by
  unfold Setup.acceptedCoFarmers
  induction s.rows.filter fun r => r.status = .accepted with
  | nil => simp
  | cons r rows ih =>
    rw [List.map_cons, List.map_cons, List.sum_cons, ih, List.map_cons, List.sum_cons]
    push_cast
    ring

theorem accepted_le_live (rows : List DealCoFarmer) :
    ((rows.filter fun r => r.status = .accepted).map (·.portionPercent)).sum ≤
      livePortions rows := by
  unfold livePortions
  induction rows with
  | nil => exact Nat.le_refl 0
  | cons r rows ih =>
    rw [List.filter_cons, List.map_cons, List.sum_cons]
    split
    case isTrue haccepted =>
      have hstatus : r.status = .accepted := of_decide_eq_true haccepted
      have hlive : r.livePortion = r.portionPercent :=
        if_pos ⟨by rw [hstatus]; nofun, by rw [hstatus]; nofun⟩
      rw [List.map_cons, List.sum_cons, hlive]
      omega
    case isFalse => omega

theorem Inv.weights (h : Inv setup sys) (deal : EscrowService.Deal String String) :
    (∀ p ∈ payoutParticipants deal (setup.acceptedCoFarmers sys.state), 0 ≤ p.portionPercent) ∧
      ((payoutParticipants deal (setup.acceptedCoFarmers sys.state)).map
        PayoutParticipant.weight).sum = 100 := by
  have hnonneg : ∀ p ∈ payoutParticipants deal (setup.acceptedCoFarmers sys.state),
      0 ≤ p.portionPercent := by
    unfold payoutParticipants
    refine List.forall_mem_cons.mpr ⟨?_, fun p hp => ?_⟩
    · have hle : (((sys.state.rows.filter fun r => r.status = .accepted).map
          (·.portionPercent)).sum : Nat) ≤ 10000 := (accepted_le_live _).trans h.total
      have hcast : ((((sys.state.rows.filter fun r => r.status = .accepted).map
          (·.portionPercent)).sum : Nat) : Rat) ≤ 10000 := by exact_mod_cast hle
      show 0 ≤ 100 - ((setup.acceptedCoFarmers sys.state).map (·.portionPercent)).sum
      rw [sum_accepted]
      linarith
    · obtain ⟨cf, hcf, rfl⟩ := List.mem_map.mp hp
      obtain ⟨r, -, rfl⟩ := List.mem_map.mp hcf
      show 0 ≤ (r.portionPercent : Rat) / 100
      positivity
  refine ⟨hnonneg, ?_⟩
  have hweights : (payoutParticipants deal (setup.acceptedCoFarmers sys.state)).map
      PayoutParticipant.weight = (payoutParticipants deal
        (setup.acceptedCoFarmers sys.state)).map (·.portionPercent) :=
    List.map_congr_left fun p hp => max_eq_left (hnonneg p hp)
  rw [hweights]
  unfold payoutParticipants
  rw [List.map_cons, List.sum_cons, List.map_map]
  exact sub_add_cancel _ _

theorem Inv.fitting (h : Inv setup sys) : Fitting setup sys.state := by
  refine ⟨fun r hr _ => h.positive r hr, h.total, h.weights, ?_⟩
  exact h.nodup.sublist (List.filter_sublist.map _)

/-- The portions fit, and until a later invitation everyone on a deal that went live is verified. -/
theorem portions_fit (setup : Setup) (xs : List (Step System Action)) (sys : System)
    (hrun : CoFarmerRun setup xs sys) (hfresh : ∀ x ∈ xs, Fresh x.pre x.act) :
    Fitting setup sys.state ∧ (sys.state.activated = true → sys.state.invitedSince = false →
      AllVerified setup sys.state) := by
  have hstart : Inv setup start := by
    refine ⟨List.nodup_nil, ?_, Nat.zero_le _, nofun, ?_⟩
    · exact fun r hr => absurd hr List.not_mem_nil
    · exact fun pc hpc => absurd hpc List.not_mem_nil
  have hinv : Inv setup sys := hrun.invariant (Inv setup) hstart
    fun x hx hnext hpre => hpre.next (hfresh x hx) hnext
  exact ⟨hinv.fitting, fun _ => hinv.verified⟩

/-! ## Two farmers -/

/-- A deal of a lead farmer and a trader, and two farmers of whom one is verified. -/
def cooperative : Setup where
  farmerId := "lead"
  traderId := "trader"
  documents := 1
  users := [⟨"amina", "amina@farm", some "GAMINA", "farmer", "verified"⟩,
    ⟨"kofi", "kofi@farm", none, "farmer", "pending"⟩]
  toLowerCase text := text

def amina : InviteCoFarmerDto := ⟨some "amina@farm", none, 60, by norm_num, by norm_num⟩

def kofi : InviteCoFarmerDto := ⟨some "kofi@farm", none, 60, by norm_num, by norm_num⟩

/-- The commands of a call, all of which succeed. -/
def commands (w n : Nat) : List Action := List.replicate n (.run w .ok 0)

/-- One farmer is invited and accepts, and the deal goes live. -/
def aminaJoins : List Action :=
  .inviteCoFarmer "lead" amina "token-1" :: commands 0 5 ++
    .acceptInvitation "amina" "token-1" :: commands 1 2 ++ .publishDeal "trader" :: commands 2 3

theorem portions_fit_live :
    (replay cooperative.next start aminaJoins).2.state.activated = true ∧
      Fitting cooperative (replay cooperative.next start aminaJoins).2.state ∧
      AllVerified cooperative (replay cooperative.next start aminaJoins).2.state := by
  have hrun := run_replay cooperative.next start aminaJoins
  have hactivated : (replay cooperative.next start aminaJoins).2.state.activated = true := by
    decide +kernel
  have hsince : (replay cooperative.next start aminaJoins).2.state.invitedSince = false := by
    decide +kernel
  have hfit := portions_fit cooperative _ _ hrun (by decide +kernel)
  exact ⟨hactivated, hfit.1, hfit.2 hactivated hsince⟩

/-- The other farmer is invited for the rest when the deal is open. -/
def kofiInvited : List Action :=
  aminaJoins ++ .inviteCoFarmer "lead" ⟨some "kofi@farm", none, 40, by norm_num, by norm_num⟩
    "token-2" :: commands 3 5

/-- Both are invited, and checked before either invitation is saved. -/
def bothInvited : List Action :=
  [.inviteCoFarmer "lead" amina "token-1", .inviteCoFarmer "lead" kofi "token-2"] ++
    commands 0 4 ++ commands 1 5 ++ commands 0 1

theorem unverified_and_exceeded :
    (¬ ∀ (setup : Setup) (xs : List (Step System Action)) (sys : System),
      CoFarmerRun setup xs sys → sys.state.activated = true → AllVerified setup sys.state) ∧
    ¬ ∀ (setup : Setup) (xs : List (Step System Action)) (sys : System),
      CoFarmerRun setup xs sys → Fitting setup sys.state := by
  constructor
  · intro h
    have hrun := run_replay cooperative.next start kofiInvited
    have hverified := h cooperative _ _ hrun (by decide +kernel)
    revert hverified
    decide +kernel
  · intro h
    have hrun := run_replay cooperative.next start bothInvited
    have htotal := (h cooperative _ _ hrun).total
    revert htotal
    decide +kernel

end AgriFi.DealCoFarmers
