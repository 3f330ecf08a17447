import Mathlib.Data.List.Forall2
import LuvCoro.Stream.Protocol

/-! # Datagrams

`recv_from_into` is the read of a socket: what libuv has put into its buffer is one
datagram, cut to the buffer, and comes with the address of its sender. -/
namespace LuvCoro.Stream

open Transition
open Request (Error UV_ECANCELED UV_EBUSY)

variable {β : Type} {s t : Sys β} {i j : Nat} {o o' : Op β} {ps : List Posted} {l : Label β}
  {bytes : List β} {addr : Option Sockaddr}

/-! ## What a receive returns -/

/-- What becomes of a datagram. -/
def datagramResult (bytes : List β) : Option Sockaddr → Except Error (Received β)
  | none => .error (.runtimeError "udp recv_from missing peer address")
  | some addr => makeReceiveResult bytes addr

/-- The receive has gone on with the datagram. -/
structure Holds (o : Op β) (bytes : List β) : Prop where
  outcome : o.outcome = some (datagramResult bytes o.addr)
  nonempty : bytes ≠ []
  fits : bytes.length ≤ o.buffer.length

/-- The receives that have gone on with a datagram, in the order of the datagrams:
each has one of them, and no other receive returns. -/
def Distributed (s : Sys β) : Prop :=
  ∃ readers : List Nat, readers.Nodup ∧
    List.Forall₂ (fun i bytes => Holds (s.ops i) bytes) readers s.delivered ∧
    ∀ i r, (s.ops i).outcome = some (.ok r) → i ∈ readers

/-- A receive keeps what it has gone on with, or goes on with an error. -/
def Still (o o' : Op β) : Prop :=
  (o'.outcome = o.outcome ∧ o'.addr = o.addr ∧ o'.buffer.length = o.buffer.length) ∨
    o.outcome = none ∧ ∃ e, o'.outcome = some (.error e)

theorem still_refl (o : Op β) : Still o o := .inl ⟨rfl, rfl, rfl⟩

theorem Holds.still (h : Holds o bytes) (hs : Still o o') : Holds o' bytes := by
  rcases hs with ⟨ho, ha, hb⟩ | ⟨hn, -⟩
  · exact ⟨by rw [ho, ha]; exact h.outcome, h.nonempty, by rw [hb]; exact h.fits⟩
  · exact absurd (hn.symm.trans h.outcome) nofun

theorem Distributed.still (h : Distributed s) (hd : t.delivered = s.delivered)
    (hs : ∀ i, Still (s.ops i) (t.ops i)) : Distributed t := by
  obtain ⟨readers, hn, hall, hin⟩ := h
  refine ⟨readers, hn, ?_, fun i r ho => ?_⟩
  · rw [hd]
    exact hall.imp fun i bytes hi => hi.still (hs i)
  · rcases hs i with ⟨he, -⟩ | ⟨-, e, he⟩
    · exact hin i r (he.symm.trans ho)
    · rw [he] at ho
      cases ho

theorem Distributed.mem_outcome {readers : List Nat} {ds : List (List β)}
    (h : List.Forall₂ (fun i bytes => Holds (s.ops i) bytes) readers ds) (hi : i ∈ readers) :
    (s.ops i).outcome ≠ none := by
  induction h with
  | nil => cases hi
  | cons hh _ ih =>
    rcases List.mem_cons.mp hi with rfl | hi
    · rw [hh.outcome]
      simp
    · exact ih hi

/-- One receive more has gone on, with the next datagram. -/
theorem Distributed.deliver (h : Distributed s) (hi : (s.ops i).outcome = none)
    (hd : t.delivered = s.delivered ++ [bytes]) (ho : Holds (t.ops i) bytes)
    (hne : ∀ j, j ≠ i → t.ops j = s.ops j) : Distributed t := by
  obtain ⟨readers, hn, hall, hin⟩ := h
  have hnew : i ∉ readers := fun hm => Distributed.mem_outcome hall hm hi
  refine ⟨readers ++ [i], ?_, ?_, fun j r hj => ?_⟩
  · refine List.nodup_append.mpr ⟨hn, List.pairwise_singleton _ i, fun a ha c hc he => ?_⟩
    rw [List.mem_singleton] at hc
    exact hnew (hc ▸ he ▸ ha)
  · rw [hd]
    refine List.rel_append (hall.imp fun j b hj => hj.still ?_) (.cons ho .nil)
    by_cases hji : j = i
    · subst hji
      exact absurd (hi.symm.trans hj.outcome) nofun
    · rw [hne j hji]
      exact still_refl _
  · by_cases hji : j = i
    · exact List.mem_append_right _ (List.mem_singleton.mpr hji)
    · rw [hne j hji] at hj
      exact List.mem_append_left _ (hin j r hj)

/-! ## The steps -/

theorem still_set (h : Still (s.ops i) o) : ∀ j, Still (s.ops j) ((s.set i o).ops j) := by
  intro j
  by_cases hj : j = i
  · subst hj
    rw [set_ops_self]
    exact h
  · rw [set_ops_of_ne hj]
    exact still_refl _

/-- A receive is completed with an error. -/
theorem still_complete {o : Op β} {e : Error} (hw : (s.ops i).outcome = none)
    (hc : o.completed = false) (hk : o.continuation = true)
    (he : o.awaitResume .udpSocket = .error e) :
    Still (s.ops i) (o.complete .udpSocket) :=
  .inr ⟨hw, e, by rw [complete_outcome hc hk, he]⟩

/-- A status other than 0 is thrown. -/
theorem awaitResume_status (h : o.status < 0) : ∃ e, o.awaitResume .udpSocket = .error e := by
  unfold Op.awaitResume
  split
  · exact ⟨_, rfl⟩
  · rw [if_pos ⟨h, .inl rfl⟩]
    exact ⟨_, rfl⟩

theorem run_still (h : Phase (s.view i)) (hs : run .udpSocket s i = some t) :
    t.delivered = s.delivered ∧ ∀ j, Still (s.ops j) (t.ops j) := by
  unfold run at hs
  dsimp only at hs
  split at hs
  · rename_i hpc
    have hnone : (s.ops i).outcome = none := by
      cases h with
      | entering he => exact he.outcome
      | declined hd => exact absurd (hpc.symm.trans hd.pc) nofun
      | waiting hw => exact absurd hpc hw.pending.1
      | ended he => exact absurd hpc he.pc
    split at hs
    · cases hs
      exact ⟨rfl, still_set (.inr ⟨hnone, _, rfl⟩)⟩
    · split at hs
      · cases hs
        exact ⟨rfl, still_set (.inr ⟨hnone, _, rfl⟩)⟩
      · split at hs
        · cases hs
          obtain ⟨e, he⟩ := awaitResume_status (o := { s.ops i with
            cancelRequested := true, status := UV_ECANCELED }) (by simp [UV_ECANCELED])
          exact ⟨rfl, still_set (.inr ⟨hnone, e, congrArg some he⟩)⟩
        · cases hs
          exact ⟨rfl, still_set (.inl ⟨rfl, rfl, rfl⟩)⟩
  · split at hs <;> cases hs
    · exact ⟨rfl, still_set (s := s) (.inl ⟨rfl, rfl, rfl⟩)⟩
    · exact ⟨rfl, still_set (.inl ⟨rfl, rfl, rfl⟩)⟩
  · split at hs <;> cases hs
    · exact ⟨rfl, still_set (.inl ⟨rfl, rfl, rfl⟩)⟩
    · exact ⟨rfl, still_set (s := s) (.inl ⟨rfl, rfl, rfl⟩)⟩
  · cases hs

theorem start_still {rc : Int} (h : Phase (s.view i)) (hp : s.posted = .start i :: ps) :
    ({ s with posted := ps }.start .udpSocket i rc).delivered = s.delivered ∧
      ∀ j, Still (s.ops j) (({ s with posted := ps }.start .udpSocket i rc).ops j) := by
  have hw : (s.ops i).completed = false → Waiting (s.view i) := fun hc => (start_queued h hp hc).1
  unfold Sys.start
  dsimp only
  split
  · exact ⟨rfl, fun _ => still_refl _⟩
  · rename_i hc
    rw [Bool.not_eq_true] at hc
    have hw := hw hc
    split
    · exact ⟨rfl, fun _ => still_refl _⟩
    · split
      · obtain ⟨e, he⟩ := awaitResume_status (o := { s.ops i with status := UV_EBUSY })
          (by simp [UV_EBUSY])
        exact ⟨rfl, still_set (s := s) (still_complete hw.outcome hc hw.continuation he)⟩
      · generalize (if s.handle = .opened then rc else Request.UV_EINVAL) = code
        split
        · rename_i hneg
          obtain ⟨e, he⟩ := awaitResume_status (o := { s.ops i with status := code }) hneg
          exact ⟨rfl, still_set (s := s) (still_complete hw.outcome hc hw.continuation he)⟩
        · exact ⟨rfl, still_set (s := s) (.inl ⟨rfl, rfl, rfl⟩)⟩

theorem cancel_still (h : Inv .udpSocket s) (hp : s.posted = .cancel i :: ps) :
    ({ s with posted := ps }.cancel .udpSocket i).delivered = s.delivered ∧
      ∀ j, Still (s.ops j) (({ s with posted := ps }.cancel .udpSocket i).ops j) := by
  cases hc : (s.ops i).completed with
  | true =>
    have he : { s with posted := ps }.cancel .udpSocket i = { s with posted := ps } :=
      cancel_over hc
    rw [he]
    exact ⟨rfl, fun _ => still_refl _⟩
  | false =>
    have hw := (h.phase i).of_queued (.inr (decide_eq_true (hp ▸ List.mem_cons_self))) hc
    have hd : s.dangling .udpSocket = false := h.stage.not_dangling hw.pending
    rw [@cancel_eq _ .udpSocket { s with posted := ps } i hc hd]
    obtain ⟨e, he⟩ := awaitResume_status (o := { s.ops i with
      cancelRequested := true, status := UV_ECANCELED }) (by simp [UV_ECANCELED])
    have hq := still_set (s := s) (still_complete (o := { s.ops i with
      cancelRequested := true, status := UV_ECANCELED }) hw.outcome hc hw.continuation he)
    split
    · exact ⟨rfl, hq⟩
    · exact ⟨rfl, hq⟩

theorem complete_kept (k : Kind) (o : Op β) :
    (o.complete k).addr = o.addr ∧ (o.complete k).buffer = o.buffer := by
  unfold Op.complete
  split <;> exact ⟨rfl, rfl⟩

/-- What the read callback makes of a datagram. -/
theorem record_datagram (hcr : o.cancelRequested = false)
    (hr : o.record .udpSocket (.data bytes addr) = some o') :
    o'.awaitResume .udpSocket = datagramResult bytes addr ∧ o'.addr = addr ∧
      o'.buffer = bytes ++ o.buffer.drop bytes.length := by
  cases hr
  have htake : (bytes ++ o.buffer.drop bytes.length).take bytes.length = bytes :=
    List.take_left
  refine ⟨?_, rfl, rfl⟩
  cases addr <;> simp [Op.awaitResume, hcr, UV_ECANCELED, Kind.isSocket, htake, datagramResult]

/-- The receive that the socket belongs to goes on with the datagram. -/
theorem record_holds (hw : Waiting (s.view i))
    (hfits : (Event.data bytes addr).fits (s.ops i) = true)
    (hr : (s.ops i).record .udpSocket (.data bytes addr) = some o) :
    Holds (o.complete .udpSocket) bytes := by
  obtain ⟨-, hc, hcont, -⟩ := record_keeps hr
  obtain ⟨hres, haddr, hbuffer⟩ := record_datagram hw.cancelRequested hr
  obtain ⟨hkeptAddr, hkeptBuffer⟩ := complete_kept .udpSocket o
  have hfits : bytes ≠ [] ∧ bytes.length ≤ (s.ops i).buffer.length % 2 ^ 32 := by
    simpa [Event.fits] using hfits
  refine ⟨?_, hfits.1, ?_⟩
  · rw [complete_outcome (hc.trans hw.completed) (hcont.trans hw.continuation), hres, hkeptAddr,
      haddr]
  · rw [hkeptBuffer, hbuffer, List.length_append]
    exact Nat.le_add_right _ _

theorem event_distributed {e : Event β} (h : Inv .udpSocket s) (hd : Distributed s)
    (hr : s.reading = true) (hs : s.event .udpSocket e = some t) : Distributed t := by
  obtain ⟨i, howner⟩ := Option.isSome_iff_exists.mp (h.reading.symm.trans hr)
  have hw := (h.phase i).of_owner howner
  obtain ⟨hfits, ⟨-, rfl⟩ | ⟨o, ho, rfl⟩⟩ := event_cases howner hs
  · exact hd
  · obtain ⟨-, hc, hcont, -⟩ := record_keeps ho
    have hc : o.completed = false := hc.trans hw.completed
    have hcont : o.continuation = true := hcont.trans hw.continuation
    have hfailed : o.status < 0 → e.batch = [] → Distributed ({ s with
        delivered := s.delivered ++ e.batch
        data := none
        reading := false }.set i (o.complete .udpSocket)) := by
      intro hneg hbatch
      obtain ⟨x, hx⟩ := awaitResume_status hneg
      refine hd.still ?_ (still_set (s := s) (still_complete hw.outcome hc hcont hx))
      show s.delivered ++ e.batch = s.delivered
      rw [hbatch, List.append_nil]
    cases e with
    | data bytes addr =>
      refine hd.deliver (i := i) hw.outcome rfl ?_ fun j hj => set_ops_of_ne hj
      rw [set_ops_self]
      exact record_holds hw hfits ho
    | empty => cases ho
    | eof =>
      cases ho
      exact hfailed (by simp [UV_EOF]) rfl
    | error code =>
      cases ho
      exact hfailed (of_decide_eq_true hfits) rfl

/-- The step lemma. -/
theorem step_distributed (h : Inv .udpSocket s) (hd : Distributed s)
    (hs : step .udpSocket s l = some t) : Distributed t := by
  cases l with
  | run i =>
    obtain ⟨hsame, hstill⟩ := run_still (h.phase i) hs
    exact hd.still hsame hstill
  | requestStop i =>
    simp only [step] at hs
    split at hs <;> cases hs
    exact hd.still rfl (still_set (.inl ⟨rfl, rfl, rfl⟩))
  | stopCallback i =>
    simp only [step] at hs
    split at hs <;> cases hs
    exact hd.still rfl (still_set (s := s) (.inl ⟨rfl, rfl, rfl⟩))
  | release i =>
    simp only [step] at hs
    split at hs <;> cases hs
    exact hd.still rfl (still_set (.inl ⟨rfl, rfl, rfl⟩))
  | runPosted rc =>
    simp only [step] at hs
    split at hs
    · cases hs
    · rename_i i ps hp
      cases hs
      obtain ⟨hsame, hstill⟩ := start_still (h.phase i) hp
      exact hd.still hsame hstill
    · rename_i i ps hp
      cases hs
      obtain ⟨hsame, hstill⟩ := cancel_still h hp
      exact hd.still hsame hstill
    · cases hs
      have hclose : ∀ u : Sys β, u.uvClose.delivered = u.delivered ∧ u.uvClose.ops = u.ops := by
        intro u
        unfold Sys.uvClose
        split <;> exact ⟨rfl, rfl⟩
      refine hd.still (hclose _).1 fun i => ?_
      rw [(hclose _).2]
      exact still_refl _
  | event e =>
    simp only [step] at hs
    split at hs
    · rename_i hr
      exact event_distributed h hd hr hs
    · cases hs
  | close =>
    simp only [step] at hs
    split at hs <;> cases hs
    have hclose : s.close.delivered = s.delivered ∧ s.close.ops = s.ops := by
      unfold Sys.close
      split <;> exact ⟨rfl, rfl⟩
    refine hd.still hclose.1 fun i => ?_
    rw [hclose.2]
    exact still_refl _
  | closeCallback =>
    simp only [step] at hs
    split at hs <;> cases hs
    exact hd.still rfl fun _ => still_refl _

theorem reachable_distributed (h : ReachableBy (system β .udpSocket) (Harmless .udpSocket) s) :
    Distributed s := by
  refine h.invariant (fun s h0 => ?_) fun _ _ _ hr hd _ hs =>
    step_distributed (reachable_inv hr) hd hs
  refine ⟨[], List.nodup_nil, ?_, fun i r ho => ?_⟩
  · rw [h0.2]
    exact .nil
  · rw [(h0.1 i).eq] at ho
    cases ho

/-! ## The contract -/

/-- What the receives of a socket may rely on. -/
structure ReceiveProtocol (s : Sys β) : Prop where
  awaiters : ∀ i, (s.ops i).stale = false
  owner : ∀ i, s.data = some i ↔ (s.ops i).started = true ∧ (s.ops i).completed = false
  listens : s.reading = s.data.isSome
  sound : s.fault = false
  busy : ∀ a b ps rc, s.data = some a → s.posted = .start b :: ps →
    (s.ops b).completed = false →
      a ≠ b ∧ ∃ t, step .udpSocket s (.runPosted rc) = some t ∧ (t.ops b).completed = true ∧
        (t.ops b).outcome = some (.error (.uvError UV_EBUSY)) ∧ t.data = some a ∧
        t.reading = s.reading ∧ ∀ j, j ≠ b → t.ops j = s.ops j
  once : ∀ i, (s.ops i).resumed ≤ 1
  completes : ∀ i, AtRest .udpSocket s i → (s.ops i).resumed = 1 ∨
    s.data = some i ∧ ((s.ops i).stopPossible = true → (s.ops i).stopRequested = false)
  answers : ∀ i e, s.data = some i → e.fits (s.ops i) = true → e ≠ .empty →
    ∃ t, step .udpSocket s (.event e) = some t ∧ (t.ops i).completed = true ∧
      (t.ops i).resumed = 1
  distributed : Distributed s

end LuvCoro.Stream
