import LuvCoro.Channel.Refinement

/-! # What one `next` takes

A call of `next` looks at the queue, may park a waiter, and settles with one
value or with the news that the channel is closed. `Next` says how far it has
come and what the history holds of it; a step of the channel adds a value only
by handing it over, which `Hands` describes on the state before the step. -/
namespace LuvCoro.Channel

open Transition WaiterPool ParkingQueue

universe u
variable {T : Type u} {s t : Sys T} {l : Label T} {i : OpId}

/-- The value of an event, if it is `i` that takes it. -/
def Event.takenBy? (i : OpId) : Event T → Option T
  | .taken j v => if j = i then some v else none
  | _ => none

namespace Sys

/-- What `i` has taken, in lock order. -/
def takenBy (s : Sys T) (i : OpId) : List T := s.log.filterMap (Event.takenBy? i)

end Sys

/-- The points before the section that places a value. -/
def Pc.sends : Pc T → Bool
  | .send _ | .sendWoken _ | .trySend _ | .asyncSendReady | .asyncSendSuspend => true
  | _ => false

/-- The points at which a `next` looks at the queue. -/
def Pc.looks : Pc T → Bool
  | .recvReady true | .recvSuspend true => true
  | _ => false

/-- The step can hand a value to `i`: `i` looks at messages, or somebody sends
while `i` is the oldest receiver waiting. -/
def Hands (s : Sys T) (l : Label T) (i : OpId) : Prop :=
  l = .run i ∧ (s.pc i).looks = true ∧ s.chan.messages ≠ [] ∨
    ∃ j, l = .run j ∧ (s.pc j).sends = true ∧ s.chan.activeReceivers.head? = some i

/-- `uv_async_send` is refused to `i`, whose section has woken the loop. -/
def Cut (s : Sys T) (l : Label T) (i : OpId) : Prop :=
  l = .run i ∧ s.asyncClosing = true ∧ s.onLoop i = false ∧
    ∃ f, s.pc i = .wake f (.resume (.recv true)) ∧ f.wakeLoop = true

/-- The waiter's fields once it is settled with `o`. -/
def Served (r : ReceiverWaiter T) : Option T → Prop
  | some v => r.value = some v ∧ r.exception = none
  | none => r.value = none ∧ r.exception = some .closedError

/-- The points after a `next` is settled with `o`. -/
inductive SettledPc (o : Option T) : Pc T → Prop
  | suspended : SettledPc o (.suspended (.recv true))
  | notify {f : Flags} : SettledPc o (.notify f (.resume (.recv true)))
  | cancelTimers {f : Flags} : SettledPc o (.cancelTimers f (.resume (.recv true)))
  | wake {f : Flags} : SettledPc o (.wake f (.resume (.recv true)))
  | done : SettledPc o (.done (.value o))

theorem looks_cases {p : Pc T} (h : p.looks = true) :
    p = .recvReady true ∨ p = .recvSuspend true := by
  cases p with
  | recvReady optional =>
    cases optional with
    | true => exact .inl rfl
    | false => cases h
  | recvSuspend optional =>
    cases optional with
    | true => exact .inr rfl
    | false => cases h
  | _ => cases h

/-- How far a `next` has come, with what it has taken. -/
inductive Stage (s : Sys T) (i : OpId) : List T → Prop
  | looking : (s.pc i).looks = true → Stage s i []
  | parked : s.pc i = .suspended (.recv true) → i ∈ s.chan.activeReceivers →
      (s.chan.receiver i).value = none → (s.chan.receiver i).exception = none → Stage s i []
  | settled {o : Option T} : SettledPc o (s.pc i) → i ∉ s.chan.activeReceivers →
      Served (s.chan.receiver i) o → Stage s i o.toList

/-- What the ready queues and the flushes hold for `i`. -/
def Sys.owed (s : Sys T) (i : OpId) : Nat :=
  s.chan.readyReceivers.count i + s.chan.readySenders.count i + s.flushing.flatten.count i

/-- A `next` is at the stage that its history says, and is not resumed before it
is settled. -/
structure Next (s : Sys T) (i : OpId) : Prop where
  untimed : ¬ s.Timed i
  sender : i ∉ s.chan.senderWaiters
  unowed : (s.pc i).looks = true ∨ i ∈ s.chan.activeReceivers → s.owed i = 0
  stage : Stage s i (s.takenBy i)

/-! ## What other steps do to a waiter -/

/-- What becomes of the receiver waiter of `i`, with what it takes. -/
inductive Fate (s t : Sys T) (i : OpId) : List T → Prop
  | same : t.chan.receiver i = s.chan.receiver i →
      (i ∈ t.chan.activeReceivers ↔ i ∈ s.chan.activeReceivers) → Fate s t i []
  | handed {v : T} : s.chan.activeReceivers.head? = some i → i ∉ t.chan.activeReceivers →
      (t.chan.receiver i).value = some v →
      (t.chan.receiver i).exception = (s.chan.receiver i).exception → Fate s t i [v]
  | closed : i ∈ s.chan.activeReceivers → i ∉ t.chan.activeReceivers →
      (t.chan.receiver i).value = (s.chan.receiver i).value →
      (t.chan.receiver i).exception = some .closedError → t.chan.closed = true → Fate s t i []

theorem fate_same {own : OpId → Prop}
    (hr : Evolves own s.chan.receivers t.chan.receivers) (hi : ¬ own i)
    (hm : i ∈ s.chan.activeReceivers → i ∈ t.chan.activeReceivers) : Fate s t i [] := by
  by_cases ha : i ∈ s.chan.activeReceivers
  · obtain ⟨_, hrec⟩ := hr.waiting_of hi (hm ha)
    exact .same hrec ⟨fun _ => ha, hm⟩
  · obtain ⟨hrec, _⟩ := hr.idle hi ha
    exact .same hrec ⟨fun h => (hr.waiting_of hi h).1, fun h => absurd h ha⟩

theorem fate_refl (h : t.chan = s.chan) : Fate s t i [] := by
  refine .same ?_ ?_
  · rw [h]
  · rw [h]

theorem fate_queue {own : OpId → Prop}
    (hr : Evolves own s.chan.receivers t.chan.receivers) (hi : ¬ own i)
    (hq : t.chan.toQueue.takers = s.chan.toQueue.takers) : Fate s t i [] := by
  refine fate_same hr hi ?_
  intro ha
  have ht : t.chan.activeReceivers = s.chan.activeReceivers := hq
  rw [ht]
  exact ha

theorem take_takers {q q' : Queue OpId T} {v : T} (h : q.take = some (v, q')) :
    q'.takers = q.takers := by
  unfold Queue.take at h
  split at h <;> cases h <;> rfl

theorem fate_pruned {st : State T} (hp : Pruned s.chan st) (hc : t.chan = st) :
    Fate s t i [] := by
  subst hc
  exact fate_queue (hp.outcome noOne).receivers id hp.receivers

/-- A send hands its value to the oldest receiver waiting. -/
theorem fate_give {own : OpId → Prop} {v : T} (hw : WellFormed s.chan)
    (hr : Evolves own s.chan.receivers t.chan.receivers) (hi : ¬ own i)
    (hq : t.chan.toQueue = s.chan.toQueue.give v)
    (hh : Handed s.chan t.chan v) :
    Fate s t i ((s.chan.activeReceivers.head?.toList.map (Event.taken · v)).filterMap
      (Event.takenBy? i)) := by
  have ht : t.chan.activeReceivers = (s.chan.toQueue.give v).takers := congrArg Queue.takers hq
  cases ha : s.chan.activeReceivers with
  | nil =>
    refine fate_same hr hi fun hm => ?_
    rw [ha] at hm
    cases hm
  | cons w ws =>
    have hg : t.chan.activeReceivers = ws := by
      rw [ht]
      have hts : s.chan.toQueue.takers = w :: ws := ha
      simp only [Queue.give, hts]
    obtain ⟨hval, hex⟩ := hh w ws ha
    by_cases hiw : i = w
    · subst hiw
      have hn : i ∉ ws := by
        have hnd : s.chan.activeReceivers.Nodup := hw.receivers.nodup.filter _
        rw [ha] at hnd
        exact (List.nodup_cons.mp hnd).1
      simpa [Event.takenBy?] using
        Fate.handed (by rw [ha]; rfl) (by rw [hg]; exact hn) hval hex
    · have hsame : Fate s t i [] := by
        refine fate_same hr hi fun hm => ?_
        rw [ha] at hm
        rw [hg]
        exact (List.mem_cons.mp hm).resolve_left hiw
      simpa [Event.takenBy?, Ne.symm hiw] using hsame

theorem Fate.nil_or_head {vs : List T} (h : Fate s t i vs) :
    vs = [] ∨ s.chan.activeReceivers.head? = some i := by
  cases h with
  | same _ _ => exact .inl rfl
  | handed hh _ _ _ => exact .inr hh
  | closed _ _ _ _ _ => exact .inl rfl

theorem takenBy_append {es : List (Event T)} (h : t.log = s.log ++ es) :
    t.takenBy i = s.takenBy i ++ es.filterMap (Event.takenBy? i) := by
  unfold Sys.takenBy
  rw [h, List.filterMap_append]

theorem takenBy_other {j : OpId} (hj : j ≠ i) (v : T) :
    [Event.taken j v].filterMap (Event.takenBy? i) = [] := by
  simp [Event.takenBy?, hj]

theorem takenBy_failed (gs : List (OpId × T)) :
    (gs.map fun g => Event.failed g.1 g.2).filterMap (Event.takenBy? i) = [] := by
  rw [List.filterMap_eq_nil_iff]
  intro e he
  obtain ⟨g, _, rfl⟩ := List.mem_map.mp he
  rfl

/-- What a step may do to a waiter of somebody who does not look at the queue. -/
def Spared (s t : Sys T) (l : Label T) (i : OpId) : Prop :=
  ∃ vs, t.takenBy i = s.takenBy i ++ vs ∧ Fate s t i vs ∧ (vs = [] ∨ Hands s l i)

theorem spared_of {es : List (Event T)} (hl : t.log = s.log ++ es)
    (he : es.filterMap (Event.takenBy? i) = []) (hf : Fate s t i []) : Spared s t l i :=
  ⟨[], by rw [takenBy_append hl, he], hf, .inl rfl⟩

theorem spared_quiet (hl : t.log = s.log) (hf : Fate s t i []) : Spared s t l i :=
  @spared_of _ _ _ _ _ [] (by rw [hl, List.append_nil]) rfl hf

theorem spared_give {own : OpId → Prop} {j : OpId} {v : T} (hw : WellFormed s.chan)
    (hr : Evolves own s.chan.receivers t.chan.receivers) (hi : ¬ own i)
    (hq : t.chan.toQueue = s.chan.toQueue.give v)
    (hh : Handed s.chan t.chan v) (hl : t.log = s.log ++ sendEvents s.chan j v)
    (hs : (s.pc j).sends = true) : Spared s t (.run j) i := by
  have hf := fate_give hw hr hi hq hh
  exact ⟨_, takenBy_append hl, hf, hf.nil_or_head.imp_right fun h => .inr ⟨j, rfl, hs, h⟩⟩

theorem TakeSpec.spared {j : OpId} {r : Option T × Locked T} (h : TakeSpec s.chan j r)
    (hj : j ≠ i) (hc : t.chan = r.2.state) (hl : t.log = s.log ++ r.2.events) :
    Spared s t l i := by
  cases h with
  | nothing _ hp => exact spared_of hl rfl (fate_pruned hp hc)
  | value htake hs hev _ =>
    refine spared_of hl (by rw [hev]; exact takenBy_other hj _) ?_
    have hr := hs.receivers
    rw [← hc] at hr htake
    exact fate_queue hr id (take_takers htake)

theorem Expelled.fate {j : OpId} {st : State T} (h : Expelled s.chan j st) (hj : i ≠ j)
    (hc : t.chan = st) : Fate s t i [] := by
  subst hc
  refine fate_same h.receivers hj fun hm => ?_
  have ht : t.chan.activeReceivers = s.chan.activeReceivers.filter (· ≠ j) :=
    congrArg Queue.takers h.toQueue
  rw [ht]
  exact List.mem_filter.mpr ⟨hm, by simpa using hj⟩

/-- The steps that may be one of the timer of `i`, or the post of its start. -/
def Label.Times (i : OpId) : Label T → Prop
  | .post j | .timerFire j => j = i
  | .runPosted _ _ => True
  | _ => False

/-- Everything but a look of its own and its own timer spares the waiter of `i`,
or hands it a value, or tells it that the channel is closed. -/
theorem spared_step (hi : Inv s) (hu : s.Timed i → ¬ l.Times i)
    (hown : l = .run i → (s.pc i).beforeReceive = false ∧ s.pc i ≠ .tryRecv)
    (h : StepSpec s l t) : Spared s t l i := by
  have hw := hi.ready.wellFormed
  have hsame : t.chan = s.chan → t.log = s.log → Spared s t l i := fun hc hl =>
    spared_quiet hl (fate_refl hc)
  have hne : ∀ {j : OpId}, l = .run j → (s.pc j).beforeReceive = true → j ≠ i := by
    rintro j rfl hb rfl
    rw [(hown rfl).1] at hb
    cases hb
  cases h with
  | @start j loop call _ =>
    refine spared_quiet rfl (@fate_queue _ _ _ _ (fun _ => False) ?_ id ?_)
    · cases call <;> exact .refl _ _
    · cases call <;> rfl
  | @send j v r full ok hpc _ hs =>
    have hsend : (s.pc j).sends = true := by rcases hpc with h | h | h <;> rw [h] <;> rfl
    have hlog : (s.afterSend j r full ok).log = s.log ++ r.2.events := afterSend_log ..
    cases hs with
    | thrown hp => exact spared_of hlog rfl (fate_pruned hp rfl)
    | full _ _ hp => exact spared_of hlog rfl (fate_pruned hp rfl)
    | placed _ hs hq hev _ hh =>
      exact spared_give hw hs.receivers id hq hh (hev ▸ hlog) hsend
  | @sendReady j v r hpc _ hs =>
    have hsend : (s.pc j).sends = true := by rw [hpc]; rfl
    have hlog : (s.awaitReady j r .asyncSend .asyncSendSuspend).log = s.log ++ r.2.events := rfl
    cases hs with
    | thrown hs hq _ _ _ =>
      exact spared_of hlog rfl (fate_queue hs.receivers nofun (congrArg Queue.takers hq))
    | full _ _ hp => exact spared_of hlog rfl (fate_pruned hp rfl)
    | placed _ hs hq hev _ _ _ _ hh =>
      exact spared_give hw hs.receivers nofun hq hh (hev ▸ hlog) hsend
  | @sendSuspend j v r hpc _ hs =>
    have hsend : (s.pc j).sends = true := by rw [hpc]; rfl
    have hlog : (s.awaitSuspend j r .asyncSend).log = s.log ++ r.2.events := awaitSuspend_log ..
    cases hs with
    | parked _ _ hq hs _ _ =>
      have ht := congrArg Queue.takers hq
      exact spared_of hlog rfl (fate_queue hs.receivers nofun ht)
    | thrown hs hq _ _ _ =>
      exact spared_of hlog rfl (fate_queue hs.receivers nofun (congrArg Queue.takers hq))
    | placed _ hs hq hev _ _ _ _ hh =>
      exact spared_give hw hs.receivers nofun hq hh (hev ▸ hlog) hsend
  | @recvReady j k p q r hpc hq _ hs =>
    have hj : j ≠ i := hne rfl (by rw [hpc]; cases hq <;> rfl)
    have hji : ¬ Party.receiver i = Party.receiver j := fun he => hj (Party.receiver.inj he).symm
    have hlog : (s.awaitReady j r k p).log = s.log ++ r.2.events := rfl
    cases hs with
    | nothing _ _ hp => exact spared_of hlog rfl (fate_pruned hp rfl)
    | expired _ _ hs hqu _ _ _ _ =>
      exact spared_of hlog rfl (fate_queue hs.receivers hji (congrArg Queue.takers hqu))
    | found hf =>
      cases hf with
      | value htake hs hev _ _ _ =>
        exact spared_of hlog (by rw [hev]; exact takenBy_other hj _)
          (fate_queue hs.receivers hji (take_takers htake))
      | closed _ _ hs hqu hev _ _ _ =>
        exact spared_of hlog (by rw [hev]; rfl)
          (fate_queue hs.receivers hji (congrArg Queue.takers hqu))
  | @recvSuspend j k q posting r hpc hq _ _ hs =>
    have hj : j ≠ i := hne rfl (by rw [hpc]; cases hq <;> rfl)
    have hji : ¬ Party.receiver i = Party.receiver j := fun he => hj (Party.receiver.inj he).symm
    have hlog : (s.awaitSuspend j r k).log = s.log ++ r.2.events := awaitSuspend_log ..
    cases hs with
    | @parked st' _ _ hqu hs _ _ =>
      refine spared_of hlog rfl (fate_same hs.receivers hji fun hm => ?_)
      have ht : st'.activeReceivers = s.chan.activeReceivers ++ [j] := congrArg Queue.takers hqu
      exact ht ▸ List.mem_append_left _ hm
    | value htake hs hev _ _ =>
      exact spared_of hlog (by rw [hev]; exact takenBy_other hj _)
        (fate_queue hs.receivers hji (take_takers htake))
    | closed _ _ hs hqu hev _ _ =>
      exact spared_of hlog (by rw [hev]; rfl)
        (fate_queue hs.receivers hji (congrArg Queue.takers hqu))
    | expired _ _ hs hqu _ _ _ _ =>
      exact spared_of hlog rfl (fate_queue hs.receivers hji (congrArg Queue.takers hqu))
  | @tryRecv j r hpc hs =>
    have hj : j ≠ i := fun he => by
      subst he
      exact (hown rfl).2 hpc
    exact hs.spared hj rfl rfl
  | @next j v r hpc _ hs => exact hs.spared (hne rfl (by rw [hpc]; rfl)) rfl rfl
  | nextNothing _ _ hp _ => exact spared_quiet rfl (fate_pruned hp rfl)
  | @close j st' timers _ _ hout hq _ _ hex =>
    refine spared_of rfl (takenBy_failed _) ?_
    by_cases ha : i ∈ s.chan.activeReceivers
    · obtain ⟨h₁, h₂⟩ := hex i ha
      refine .closed ha ?_ h₂ h₁ (congrArg Queue.closed hq)
      have ht : st'.activeReceivers = [] := congrArg Queue.takers hq
      rw [goto_chan, ht]
      exact List.not_mem_nil
    · exact fate_same hout.receivers id fun h => absurd h ha
  | closeTimer _ => exact hsame (post_chan s _).1 (post_chan s _).2
  | cancelTimer _ _ => exact hsame (post_chan s _).1 (post_chan s _).2
  | notify _ => exact hsame (by rw [goto_chan]; split <;> rfl) (by rw [goto_log]; split <;> rfl)
  | @postFailed j st' wake hp _ hx =>
    refine spared_quiet rfl ?_
    rcases hx with rfl | ⟨hx, _⟩
    · exact .same rfl Iff.rfl
    · refine hx.fate ?_ rfl
      rintro rfl
      exact hu (.inl hp) rfl
  | @timer j _ _ hlab ht =>
    have hlog := congrArg Sys.log ht.frame
    refine spared_quiet hlog ?_
    rcases ht.chan with he | ⟨_, _, hx, _⟩
    · exact fate_refl he
    · refine hx.fate ?_ rfl
      rintro rfl
      refine hu ht.timed ?_
      rcases hlab with rfl | ⟨_, _, rfl⟩
      · exact rfl
      · exact trivial
  | flushSwap _ => exact spared_quiet rfl (.same rfl Iff.rfl)
  | _ => exact hsame rfl rfl

/-! ## Nobody is flushed early -/

/-- Waiters other than those of the acting operation, or of a timed one, evolve. -/
structure Acts (s t : Sys T) (l : Label T) (own : Party → Prop) : Prop where
  receivers : Evolves (fun j => own (.receiver j)) s.chan.receivers t.chan.receivers
  senders : Evolves (fun j => own (.sender j)) s.chan.senders t.chan.senders
  receiver : ∀ j, own (.receiver j) → l = .run j ∧ (s.pc j).beforeReceive = true ∨ s.Timed j
  sender : ∀ j, own (.sender j) → (s.pc j).beforeSend = true ∨ ∃ loop call, l = .start j loop call

/-- A timer that acts on its waiter ends its wait. -/
def Acting (s t : Sys T) (l : Label T) : Prop := ∃ own, Acts s t l own ∧
  ∀ j, own (.receiver j) → l = .run j ∧ (s.pc j).beforeReceive = true ∨
    s.Timed j ∧ j ∉ t.chan.activeReceivers

theorem acts_step (h : StepSpec s l t) (hl : l ≠ .flushSwap) : Acting s t l := by
  have hnone : Evolves (fun _ => False) s.chan.receivers t.chan.receivers →
      Evolves (fun _ => False) s.chan.senders t.chan.senders → Acting s t l :=
    fun hr hs => ⟨noOne, ⟨hr, hs, nofun, nofun⟩, nofun⟩
  have hsame : t.chan = s.chan → Acting s t l := fun he =>
    hnone (by rw [he]; exact .refl _ _) (by rw [he]; exact .refl _ _)
  have hpruned : ∀ {st : State T}, Pruned s.chan st → t.chan = st → Acting s t l := by
    rintro st hp rfl
    exact hnone (hp.outcome noOne).receivers (hp.outcome noOne).senders
  have hrecv : ∀ {j : OpId} {l' : Locked T}, Section (· = .receiver j) s.chan l' →
      t.chan = l'.state → l = .run j ∧ (s.pc j).beforeReceive = true →
      Acting s t l := by
    intro j l' hs hc hj
    refine ⟨(· = .receiver j), ⟨hc ▸ hs.receivers, hc ▸ hs.senders, ?_, nofun⟩, ?_⟩
    all_goals
      rintro k ⟨⟩
      exact .inl hj
  have hsend : ∀ {j : OpId} {l' : Locked T}, Section (· = .sender j) s.chan l' →
      t.chan = l'.state → (s.pc j).beforeSend = true → Acting s t l := by
    intro j l' hs hc hj
    refine ⟨(· = .sender j), ⟨hc ▸ hs.receivers, hc ▸ hs.senders, nofun, ?_⟩, nofun⟩
    rintro k ⟨⟩
    exact .inl hj
  have hexpel : ∀ {j : OpId} {st : State T}, Expelled s.chan j st → t.chan = st → s.Timed j →
      Acting s t l := by
    rintro j st hx rfl hj
    refine ⟨(· = .receiver j), ⟨hx.receivers.mono fun k hk => hk ▸ rfl, ?_, ?_, nofun⟩, ?_⟩
    · rw [hx.senders]
      exact .refl _ _
    · rintro k ⟨⟩
      exact .inr hj
    · rintro k ⟨⟩
      refine .inr ⟨hj, fun hm => ?_⟩
      have ht : t.chan.activeReceivers = s.chan.activeReceivers.filter (· ≠ j) :=
        congrArg Queue.takers hx.toQueue
      rw [ht] at hm
      simpa using (List.mem_filter.mp hm).2
  cases h with
  | @start j loop call hpc =>
    cases call with
    | asyncSend v =>
      have ho := outcome_setSender s.chan j fun w => { w with value := some v }
      refine ⟨(· = .sender j), ⟨ho.receivers, ho.senders, nofun, ?_⟩, nofun⟩
      rintro k ⟨⟩
      exact .inr ⟨_, _, rfl⟩
    | _ => exact hsame rfl
  | @send j v r full ok _ _ hs =>
    cases hs with
    | thrown hp => exact hpruned hp rfl
    | full _ _ hp => exact hpruned hp rfl
    | placed _ hs _ _ _ _ => exact hnone hs.receivers hs.senders
  | @sendReady j v r hpc _ hs =>
    have hb : (s.pc j).beforeSend = true := by rw [hpc]; rfl
    cases hs with
    | thrown hs _ _ _ _ => exact hsend hs rfl hb
    | full _ _ hp => exact hpruned hp rfl
    | placed _ hs _ _ _ _ _ _ _ => exact hsend hs rfl hb
  | @sendSuspend j v r hpc _ hs =>
    have hb : (s.pc j).beforeSend = true := by rw [hpc]; rfl
    cases hs with
    | parked _ _ _ hs _ _ => exact hsend hs rfl hb
    | thrown hs _ _ _ _ => exact hsend hs rfl hb
    | placed _ hs _ _ _ _ _ _ _ => exact hsend hs rfl hb
  | @recvReady j k p q r hpc hq _ hs =>
    have hb : (s.pc j).beforeReceive = true := by rw [hpc]; cases hq <;> rfl
    cases hs with
    | nothing _ _ hp => exact hpruned hp rfl
    | expired _ _ hs _ _ _ _ _ => exact hrecv hs rfl ⟨rfl, hb⟩
    | found hf =>
      cases hf with
      | value _ hs _ _ _ _ => exact hrecv hs rfl ⟨rfl, hb⟩
      | closed _ _ hs _ _ _ _ _ => exact hrecv hs rfl ⟨rfl, hb⟩
  | @recvSuspend j k q posting r hpc hq _ _ hs =>
    have hb : (s.pc j).beforeReceive = true := by rw [hpc]; cases hq <;> rfl
    cases hs with
    | parked _ _ _ hs _ _ => exact hrecv hs rfl ⟨rfl, hb⟩
    | value _ hs _ _ _ => exact hrecv hs rfl ⟨rfl, hb⟩
    | closed _ _ hs _ _ _ _ => exact hrecv hs rfl ⟨rfl, hb⟩
    | expired _ _ hs _ _ _ _ _ => exact hrecv hs rfl ⟨rfl, hb⟩
  | tryRecv _ hs =>
    cases hs with
    | nothing _ hp => exact hpruned hp rfl
    | value _ hs _ _ => exact hnone hs.receivers hs.senders
  | next _ _ hs =>
    cases hs with
    | value _ hs _ _ => exact hnone hs.receivers hs.senders
  | nextNothing _ _ hp _ => exact hpruned hp rfl
  | close _ _ hout _ _ _ _ => exact hnone hout.receivers hout.senders
  | closeTimer _ => exact hsame (post_chan s _).1
  | cancelTimer _ _ => exact hsame (post_chan s _).1
  | notify _ => exact hsame (by rw [goto_chan]; split <;> rfl)
  | postFailed hp _ hx =>
    rcases hx with rfl | ⟨hx, _⟩
    · exact hsame rfl
    · exact hexpel hx rfl (.inl hp)
  | timer _ ht =>
    rcases ht.chan with he | ⟨_, _, hx, _⟩
    · exact hsame he
    · exact hexpel hx rfl ht.timed
  | flushSwap _ => exact absurd rfl hl
  | _ => exact hsame rfl

theorem flushing_step (h : StepSpec s l t) (hl : l ≠ .flushSwap) {j : OpId}
    (hj : j ∈ t.flushing.flatten) : j ∈ s.flushing.flatten := by
  have hset : ∀ {q : Nat} {w : OpId} {ws : List OpId}, s.flushing[q]? = some (w :: ws) →
      j ∈ (s.flushing.set q ws).flatten → j ∈ s.flushing.flatten := by
    intro q w ws hq hm
    obtain ⟨x, hx, hjx⟩ := List.mem_flatten.mp hm
    rcases List.mem_or_eq_of_mem_set hx with hx | rfl
    · exact List.mem_flatten.mpr ⟨x, hx, hjx⟩
    · exact List.mem_flatten.mpr ⟨_, List.mem_of_getElem? hq, List.mem_cons_of_mem _ hjx⟩
  have hpost : ∀ x, ((s.post x).getD s).flushing = s.flushing := by
    intro x
    rw [Sys.post_eq]
    split <;> rfl
  cases h with
  | send _ _ hs => cases hs <;> exact hj
  | sendSuspend _ _ hs => cases hs <;> exact hj
  | recvSuspend _ _ _ _ hs => cases hs <;> exact hj
  | closeTimer _ => exact hpost (.timerCancel _) ▸ hj
  | cancelTimer _ _ => exact hpost (.timerCancel _) ▸ hj
  | @notify i f k _ => revert hj; cases f.notifyBlockedSenders <;> exact id
  | timer _ ht =>
    have hf := congrArg Sys.flushing ht.frame
    exact hf ▸ hj
  | flushSwap _ => exact absurd rfl hl
  | flushResume hq _ => exact hset hq hj
  | flushStray hq _ => exact hset hq hj
  | _ => exact hj

/-- A sender's waiter is queued by its own operation. -/
theorem sender_step (h : StepSpec s l t) (hpc : (s.pc i).beforeSend = false)
    (hstart : ∀ loop call, l ≠ .start i loop call) (hsnd : i ∉ s.chan.senderWaiters) : i ∉ t.chan.senderWaiters := by
  by_cases hl : l = .flushSwap
  · subst hl
    cases h with
    | flushSwap _ => exact hsnd
    | timer hlab _ => rcases hlab with h | ⟨_, _, h⟩ <;> cases h
  · obtain ⟨own, ha, _⟩ := acts_step h hl
    intro hq
    refine hsnd (ha.senders.mem i (fun ho => ?_) hq)
    rcases ha.sender i ho with hb | ⟨loop, call, he⟩
    · rw [hpc] at hb
      cases hb
    · exact hstart loop call he

/-- Nothing comes to be owed to a waiter that is still waiting, or is not
waiting yet. -/
theorem owed_step (h : StepSpec s l t) (hu : s.Timed i → i ∈ t.chan.activeReceivers)
    (hpc : (s.pc i).beforeSend = false) (hstart : ∀ loop call, l ≠ .start i loop call)
    (hsnd : i ∉ s.chan.senderWaiters) (hown : l = .run i → (s.pc i).beforeReceive = false)
    (hm : i ∈ s.chan.activeReceivers → i ∈ t.chan.activeReceivers) (h0 : s.owed i = 0) :
    t.owed i = 0 := by
  by_cases hl : l = .flushSwap
  · subst hl
    cases h with
    | flushSwap _ =>
      unfold Sys.owed at h0 ⊢
      simp only [List.count_nil, List.flatten_append, List.flatten_singleton, List.count_append]
      omega
    | timer hlab _ => rcases hlab with h | ⟨_, _, h⟩ <;> cases h
  obtain ⟨own, ha, hrecv⟩ := acts_step h hl
  have hnr : ¬ own (.receiver i) := by
    intro ho
    rcases hrecv i ho with ⟨he, hb⟩ | ⟨ht, hn⟩
    · rw [hown he] at hb
      cases hb
    · exact hn (hu ht)
  have hns : ¬ own (.sender i) := by
    intro ho
    rcases ha.sender i ho with hb | ⟨loop, call, he⟩
    · rw [hpc] at hb
      cases hb
    · exact hstart loop call he
  have hw : i ∉ s.chan.senders.waiting := fun h => hsnd (Pool.mem_waiting.mp h).1
  have hrs : t.chan.readySenders.count i = s.chan.readySenders.count i :=
    (ha.senders.idle hns hw).2
  have hrr : t.chan.readyReceivers.count i = s.chan.readyReceivers.count i := by
    by_cases hmem : i ∈ s.chan.activeReceivers
    · cases ha.receivers.advance i hnr with
      | same _ tokens _ => exact tokens
      | completed _ inactive _ _ =>
        have := (Pool.mem_waiting.mp (show i ∈ t.chan.receivers.waiting from hm hmem)).2
        rw [inactive] at this
        cases this
    · exact (ha.receivers.idle hnr hmem).2
  have hf : t.flushing.flatten.count i = 0 := by
    refine List.count_eq_zero.mpr fun hm' => ?_
    have hpos := List.count_pos_iff.mpr (flushing_step h hl hm')
    unfold Sys.owed at h0
    omega
  unfold Sys.owed at h0 ⊢
  omega

/-! ## The step of a `next` -/

/-- Only a timed receive posts. -/
theorem post_timed (h : StepSpec s (.post i) t) : s.Timed i := by
  cases h with
  | posted hp _ => exact .inl hp
  | postFailed hp _ _ => exact .inl hp
  | timer hlab _ => rcases hlab with h | ⟨_, _, h⟩ <;> cases h

theorem untimed_post (h : StepSpec s l t) (hu : ¬ s.Timed i) : l ≠ .post i := by
  rintro rfl
  exact hu (post_timed h)

/-- Others move the program point of a `next` only by resuming it. -/
theorem pc_others (h : StepSpec s l t) (hu : l ≠ .post i) (hrun : l ≠ .run i)
    (hpc : s.pc i ≠ .idle ∧ ∀ v, s.pc i ≠ .sendWait v) : t.pc i = s.pc i ∨
      i ∈ s.flushing.flatten ∧ ∃ k, s.pc i = .suspended k ∧ t.pc i = .notify {} (.resume k) := by
  have hmove : ∀ {j : OpId} {p : Pc T}, t.pc = Function.update s.pc j p → j ≠ i →
      t.pc i = s.pc i := by
    intro j p ht hj
    rw [ht, Function.update_of_ne (Ne.symm hj)]
  have hne : ∀ {j : OpId}, l = .run j → j ≠ i := by
    rintro j rfl rfl
    exact hrun rfl
  have hwoken : s.notifyAll.pc i = s.pc i := by
    simp only [Sys.notifyAll]
    cases hp : s.pc i with
    | sendWait v => exact absurd hp (hpc.2 v)
    | _ => rfl
  cases h with
  | @start j loop call hidle =>
    exact .inl (hmove rfl fun he => hpc.1 (he ▸ hidle))
  | send _ _ hs => cases hs <;> exact .inl (hmove rfl (hne rfl))
  | sendSuspend _ _ hs => cases hs <;> exact .inl (hmove rfl (hne rfl))
  | recvSuspend _ _ _ _ hs => cases hs <;> exact .inl (hmove rfl (hne rfl))
  | closeNotify _ =>
    refine .inl (Eq.trans ?_ hwoken)
    exact Function.update_of_ne (Ne.symm (hne rfl)) ..
  | closeTimer _ =>
    refine .inl (hmove (congrArg (Function.update · _ _) (post_pc s _)) (hne rfl))
  | cancelTimer _ _ =>
    refine .inl (hmove (congrArg (Function.update · _ _) (post_pc s _)) (hne rfl))
  | @notify j f k _ =>
    refine .inl ((Function.update_of_ne (Ne.symm (hne rfl)) ..).trans ?_)
    split
    · exact hwoken
    · rfl
  | @spurious j v hj => exact .inl (hmove rfl fun he => hpc.2 v (he ▸ hj))
  | @postFailed j st' wake _ _ _ => exact .inl (hmove rfl fun he => hu (he ▸ rfl))
  | timer _ ht =>
    have hpt := congrArg Sys.pc ht.frame
    exact .inl (by rw [hpt])
  | @flushResume q w ws k hq hw =>
    by_cases he : w = i
    · subst he
      refine .inr ⟨List.mem_flatten.mpr ⟨_, List.mem_of_getElem? hq, List.mem_cons_self⟩, k, hw, ?_⟩
      exact Function.update_self ..
    · exact .inl (hmove rfl he)
  | posted _ _ | timerCancel _ _ | closeChannel _ | onAsync _ _ | flushSwap _ | flushStray _ _
  | closeHandle _ _ | shutdown => exact .inl rfl
  | _ => exact .inl (hmove rfl (hne rfl))

theorem result_served {st : State T} {o : Option T} (h : Served (st.receiver i) o) :
    Resume.result st i (.recv true) = .value o := by
  unfold Resume.result
  cases o with
  | none => simp [h.2]
  | some v => simp [h.1, h.2]

/-- A settled `next` goes on to return what it is settled with. -/
theorem settled_run {o : Option T} (h : StepSpec s (.run i) t) (hp : SettledPc o (s.pc i))
    (hs : Served (s.chan.receiver i) o) (hcut : ¬ Cut s (.run i) i) : SettledPc o (t.pc i) := by
  generalize hpc : s.pc i = p at hp
  have hdone : ∀ {f : Flags} {k : After T}, s.pc i = .wake f k →
      SettledPc o (k.continue s.chan i) := by
    intro f k hk
    rw [hpc] at hk
    subst hk
    cases hp
    rw [After.continue, result_served hs]
    exact .done
  cases h with
  | notify hk =>
    rw [hpc] at hk
    subst hk
    cases hp
    rw [goto_self]
    exact .cancelTimers
  | cancelTimer hk _ =>
    rw [hpc] at hk
    subst hk
    cases hp
    rw [goto_self]
    exact .cancelTimers
  | cancelTimersDone hk =>
    rw [hpc] at hk
    subst hk
    cases hp
    rw [goto_self]
    exact .wake
  | wakeNothing hk _ => exact goto_self s i _ ▸ hdone hk
  | wakeFlush hk _ => exact goto_self _ i _ ▸ hdone hk
  | wakeAsync hk _ _ => exact goto_self _ i _ ▸ hdone hk
  | @wakeClosing _ f k hk hw hc hl =>
    refine absurd ⟨rfl, hc, hl, f, ?_, hw⟩ hcut
    rw [hpc] at hk
    subst hk
    cases hp
    exact hpc
  | timer hlab _ => rcases hlab with h | ⟨_, _, h⟩ <;> cases h
  | send hk _ _ => rcases hk with hk | hk | hk <;> rw [hpc] at hk <;> subst hk <;> cases hp
  | recvReady hk hq _ _ => rw [hpc] at hk; subst hk; cases hq <;> cases hp
  | recvSuspend hk hq _ _ _ => rw [hpc] at hk; subst hk; cases hq <;> cases hp
  | sendReady hk _ _ | sendSuspend hk _ _ | tryRecv hk _ | next hk _ _ | nextNothing hk _ _ _
  | nextOnLoop hk _ | close hk _ _ _ _ _ _ | closeNotify hk | closeTimer hk | closeTimersDone hk
  | closePost hk _ | closePostFailed hk _ => rw [hpc] at hk; subst hk; cases hp

theorem SettledPc.looks {o : Option T} {p : Pc T} (h : SettledPc o p) :
    p.looks = false ∧ p.beforeReceive = false ∧ p.beforeSend = false ∧ p ≠ .tryRecv ∧
      p ≠ .idle ∧ (∀ v, p ≠ .sendWait v) ∧ p ≠ .suspended .recvFor := by
  cases h <;> exact ⟨rfl, rfl, rfl, nofun, nofun, nofun, nofun⟩

theorem untimed_step (h : StepSpec s l t) (hu : ¬ s.Timed i) (hpc : t.pc i ≠ .suspended .recvFor) :
    ¬ t.Timed i := by
  intro ht
  rcases timed_step h ht with ht | ⟨_, _, hk⟩
  · exact hu ht
  · exact hpc hk

/-- The settled `next`, whatever settled it. -/
theorem next_settled {o : Option T} (h : StepSpec s l t) (hu : ¬ s.Timed i)
    (hsnd : i ∉ t.chan.senderWaiters) (hp : SettledPc o (t.pc i))
    (hm : i ∉ t.chan.activeReceivers) (hs : Served (t.chan.receiver i) o)
    (htaken : t.takenBy i = o.toList) : Next t i := by
  obtain ⟨hlooks, _, _, _, _, _, hrf⟩ := hp.looks
  refine ⟨untimed_step h hu hrf, hsnd, fun hlive => ?_, by rw [htaken]; exact .settled hp hm hs⟩
  rcases hlive with hl | ha
  · rw [hlooks] at hl
    cases hl
  · exact absurd ha hm

theorem stage_of {vs : List T} (h : Stage s i vs) (he : s.takenBy i = vs) :
    Stage s i (s.takenBy i) := by
  rw [he]
  exact h

/-- A look at the queue takes a message, finds the channel closed, or goes on. -/
theorem look_step (hn : Next s i) (hlook : (s.pc i).looks = true)
    (h : StepSpec s (.run i) t) : Next t i ∧ (t.takenBy i = s.takenBy i ∨ Hands s (.run i) i) := by
  obtain ⟨hu, hsnd, hunowed, hstage⟩ := hn
  have hnil : s.takenBy i = [] := by
    generalize s.takenBy i = vs at hstage
    cases hstage with
    | looking _ => rfl
    | parked _ _ _ _ => rfl
    | settled hp _ _ =>
      rw [hp.looks.1] at hlook
      cases hlook
  have howed := hunowed (.inl hlook)
  have hspec := h
  have hhands : ∀ {v : T} {q : Queue OpId T}, s.chan.toQueue.take = some (v, q) →
      Hands s (.run i) i := by
    intro v q ht
    refine .inl ⟨rfl, hlook, fun hm => ?_⟩
    have hb : s.chan.toQueue.buffer = [] := hm
    simp [Queue.take, hb] at ht
  have hmem : ∀ {l' : Locked T}, Section (· = .receiver i) s.chan l' →
      i ∉ l'.state.senderWaiters := fun hs hq => hsnd (hs.senders.mem i (by simp) hq)
  cases h with
  | @recvReady _ k p q r hk hq hfr hs =>
    have hrec : k = .recv true ∧ p = .recvSuspend true := by
      rw [hk] at hlook
      cases hq with
      | @recv optional => cases optional with
        | true => exact ⟨rfl, rfl⟩
        | false => cases hlook
      | recvFor => cases hlook
    obtain ⟨rfl, rfl⟩ := hrec
    cases hs with
    | @nothing st' _ _ hp =>
      have hpc : (s.awaitReady i (false, { state := st' }) (.recv true) (.recvSuspend true)).pc i =
          .recvSuspend true := goto_self ..
      have htaken := @takenBy_append _ s _ i [] (awaitReady_log s i (false, { state := st' })
        (.recv true) (.recvSuspend true))
      rw [List.filterMap_nil, List.append_nil] at htaken
      refine ⟨⟨untimed_step hspec hu (by rw [hpc]; simp),
        fun hq => hsnd (hp.senderWaiters.subset hq), fun _ => ?_, ?_⟩, .inl htaken⟩
      · unfold Sys.owed at howed ⊢
        rw [awaitReady_chan, hp.readyReceivers, hp.readySenders]
        exact howed
      · exact stage_of (.looking (by rw [hpc]; rfl)) (htaken.trans hnil)
    | expired _ _ _ _ _ _ _ ht => cases ht
    | @found l' hf =>
      cases hf with
      | @value v _ htake hs hev _ hrec _ =>
        refine ⟨next_settled hspec hu (hmem hs) (o := some v) ?_ (not_active_of hrec rfl) ?_ ?_,
          .inr (hhands htake)⟩
        · exact (goto_self ..).symm ▸ SettledPc.notify
        · rw [awaitReady_chan, hrec]
          exact ⟨rfl, by rw [hfr.record]; rfl⟩
        · rw [takenBy_append (awaitReady_log ..), hnil, hev]
          simp [Event.takenBy?]
      | closed _ _ hs _ hev _ hrec _ =>
        have htaken := takenBy_append (i := i) (awaitReady_log s i (true, l') (.recv true)
          (.recvSuspend true))
        rw [hev, List.filterMap_nil, List.append_nil] at htaken
        refine ⟨next_settled hspec hu (hmem hs) (o := none) ?_ (not_active_of hrec rfl) ?_ ?_,
          .inl htaken⟩
        · exact (goto_self ..).symm ▸ SettledPc.notify
        · rw [awaitReady_chan, hrec]
          exact ⟨by rw [hfr.record]; rfl, rfl⟩
        · rw [htaken, hnil]
          rfl
  | @recvSuspend _ k q posting r hk hq hfr hpost hs =>
    have hrec : k = .recv true := by
      rw [hk] at hlook
      cases hq with
      | @recv optional => cases optional with
        | true => rfl
        | false => cases hlook
      | recvFor => cases hlook
    subst hrec
    cases hpost
    cases hs with
    | @parked st' _ _ hqu hs hcount hrec =>
      have hact : st'.activeReceivers = s.chan.activeReceivers ++ [i] := congrArg Queue.takers hqu
      have hpc : (s.awaitSuspend i (true, { state := st' }) (.recv true)).pc i =
          .suspended (.recv true) := goto_self ..
      have htaken := @takenBy_append _ s _ i [] (awaitSuspend_log s i (true, { state := st' })
        (.recv true))
      rw [List.filterMap_nil, List.append_nil] at htaken
      refine ⟨⟨untimed_step hspec hu (by rw [hpc]; simp), hmem hs, fun _ => ?_, ?_⟩,
        .inl htaken⟩
      · have hw : i ∉ s.chan.senders.waiting := fun h => hsnd (Pool.mem_waiting.mp h).1
        have hrs : st'.readySenders.count i = s.chan.readySenders.count i :=
          (hs.senders.idle (by simp) hw).2
        unfold Sys.owed at howed ⊢
        rw [← hcount, ← hrs] at howed
        exact howed
      · refine stage_of (.parked hpc ?_ hrec.1 hrec.2) (htaken.trans hnil)
        exact hact ▸ List.mem_append_right _ (List.mem_singleton.mpr rfl)
    | @value v l' htake hs hev _ hrec =>
      refine ⟨next_settled hspec hu (hmem hs) (o := some v) ?_ (not_active_of hrec rfl) ?_ ?_,
        .inr (hhands htake)⟩
      · exact (goto_self ..).symm ▸ SettledPc.notify
      · exact hrec ▸ ⟨rfl, rfl⟩
      · exact (takenBy_append (awaitSuspend_log ..)).trans (by rw [hnil, hev]; simp [Event.takenBy?])
    | @closed l' _ _ hs _ hev _ hrec =>
      have htaken := takenBy_append (i := i) (awaitSuspend_log s i (false, l') (.recv true))
      rw [hev, List.filterMap_nil, List.append_nil] at htaken
      refine ⟨next_settled hspec hu (hmem hs) (o := none) ?_ (not_active_of hrec rfl) ?_ ?_,
        .inl htaken⟩
      · exact (goto_self ..).symm ▸ SettledPc.notify
      · exact hrec ▸ ⟨rfl, rfl⟩
      · exact htaken.trans hnil
    | expired _ _ _ _ _ _ _ ht => cases ht
  | timer hlab _ => rcases hlab with h | ⟨_, _, h⟩ <;> cases h
  | send hk _ _ => rcases hk with hk | hk | hk <;> rw [hk] at hlook <;> cases hlook
  | sendReady hk _ _ | sendSuspend hk _ _ | tryRecv hk _ | next hk _ _ | nextNothing hk _ _ _
  | nextOnLoop hk _ | close hk _ _ _ _ _ _ | closeNotify hk | closeTimer hk | closeTimersDone hk
  | closePost hk _ | closePostFailed hk _ | notify hk | cancelTimer hk _ | cancelTimersDone hk
  | wakeNothing hk _ | wakeFlush hk _ | wakeAsync hk _ _ | wakeClosing hk _ _ _ =>
    rw [hk] at hlook
    cases hlook

/-- The step lemma of a `next`: it stays at the stage its history says, and it
takes a value only when the step can hand it one. -/
theorem next_step (hi : Inv s) (hn : Next s i) (hs : step s l = some t) (hcut : ¬ Cut s l i) :
    Next t i ∧ (t.takenBy i = s.takenBy i ∨ Hands s l i) := by
  have h := step_spec hi.ready hs
  by_cases hlook : l = .run i ∧ (s.pc i).looks = true
  · obtain ⟨rfl, hlook⟩ := hlook
    exact look_step hn hlook h
  obtain ⟨hu, hsnd, hunowed, hstage⟩ := hn
  have hidle : l = .run i → ∀ k, s.pc i ≠ .suspended k := by
    intro he k hk
    subst he
    simp [step, runOp, hk] at hs
  -- who does not look at the queue is not about to receive or send otherwise
  have hpcs : (l = .run i → (s.pc i).beforeReceive = false ∧ s.pc i ≠ .tryRecv) ∧
      (s.pc i).beforeSend = false ∧ s.pc i ≠ .idle ∧ ∀ v, s.pc i ≠ .sendWait v := by
    generalize s.takenBy i = vs at hstage
    cases hstage with
    | looking hl =>
      refine ⟨fun he => absurd ⟨he, hl⟩ hlook, ?_⟩
      rcases looks_cases hl with hp | hp <;> rw [hp] <;> exact ⟨rfl, (by simp), (by simp)⟩
    | parked hp _ _ _ => rw [hp]; exact ⟨fun _ => ⟨rfl, (by simp)⟩, rfl, (by simp), (by simp)⟩
    | settled hp _ _ =>
      obtain ⟨_, hb, hb', htr, hne, hw, _⟩ := hp.looks
      exact ⟨fun _ => ⟨hb, htr⟩, hb', hne, hw⟩
  obtain ⟨hown, hbs, hne, hsw⟩ := hpcs
  obtain ⟨vs, htaken, hfate, hhands⟩ := spared_step hi (fun ht => absurd ht hu) hown h
  have hothers : l ≠ .run i → _ := fun hrun => pc_others h (untimed_post h hu) hrun ⟨hne, hsw⟩
  have hstart : ∀ loop call, l ≠ .start i loop call := by
    intro loop call he
    subst he
    exact hne (start_spec h).1
  have hsnd' := sender_step h hbs hstart hsnd
  have hkeep := owed_step h (fun ht => absurd ht hu) hbs hstart hsnd fun he => (hown he).1
  refine ⟨?_, hhands.imp_left fun he => by rw [htaken, he, List.append_nil]⟩
  generalize hvs : s.takenBy i = us at hstage htaken
  cases hstage with
  | looking hl =>
    have hrun : l ≠ .run i := fun he => hlook ⟨he, hl⟩
    have hpc : t.pc i = s.pc i := by
      refine (hothers hrun).resolve_right ?_
      rintro ⟨_, k, hk, _⟩
      rw [hk] at hl
      cases hl
    have hb : (s.pc i).beforeReceive = true := by
      rcases looks_cases hl with hp | hp <;> rw [hp] <;> rfl
    have hfr := (hi.ready.op i).receiver hb
    have hna : i ∉ s.chan.activeReceivers := fun hm => hfr.queue (List.mem_of_mem_filter hm)
    have howed := hkeep (fun hm => absurd hm hna) (hunowed (.inl hl))
    cases hfate with
    | same _ _ =>
      exact ⟨untimed_step h hu (by rw [hpc]; intro he; rw [he] at hl; cases hl), hsnd',
        fun _ => howed, stage_of (.looking (by rw [hpc]; exact hl)) htaken⟩
    | handed hh _ _ _ => exact absurd (List.mem_of_mem_head? hh) hna
    | closed hm _ _ _ _ => exact absurd hm hna
  | parked hp hm hval hex =>
    have hrun : l ≠ .run i := fun he => hidle he _ hp
    have howed := hunowed (.inr hm)
    have hpc : t.pc i = .suspended (.recv true) := by
      rcases hothers hrun with he | ⟨hf, _⟩
      · rw [he, hp]
      · have hpos := List.count_pos_iff.mpr hf
        unfold Sys.owed at howed
        omega
    cases hfate with
    | same hrec hiff =>
      have hm' := hiff.mpr hm
      refine ⟨untimed_step h hu (by rw [hpc]; simp), hsnd',
        fun _ => hkeep (fun _ => hm') howed, stage_of ?_ htaken⟩
      exact .parked hpc hm' (by rw [hrec]; exact hval) (by rw [hrec]; exact hex)
    | @handed v _ hn hv he =>
      exact next_settled h hu hsnd' (o := some v) (hpc ▸ .suspended) hn ⟨hv, he.trans hex⟩ htaken
    | closed _ hn hv he _ =>
      exact next_settled h hu hsnd' (o := none) (hpc ▸ .suspended) hn ⟨hv.trans hval, he⟩ htaken
  | @settled o hp hna hserved =>
    have hpc : SettledPc o (t.pc i) := by
      by_cases hrun : l = .run i
      · subst hrun
        exact settled_run h hp hserved hcut
      · rcases hothers hrun with he | ⟨_, k, hk, hk'⟩
        · rw [he]
          exact hp
        · rw [hk] at hp
          cases hp
          rw [hk']
          exact .notify
    cases hfate with
    | same hrec hiff =>
      exact next_settled h hu hsnd' hpc (fun hm => hna (hiff.mp hm)) (hrec ▸ hserved)
        (by rw [htaken, List.append_nil])
    | handed hh _ _ _ => exact absurd (List.mem_of_mem_head? hh) hna
    | closed hm _ _ _ _ => exact absurd hm hna

/-! ## The call of a `next` -/

/-- An operation that is not called by a step has not been called before it. -/
theorem idle_before (h : StepSpec s l t) (hpc : t.pc i = .idle) :
    (∀ loop call, l ≠ .start i loop call) ∧ s.pc i = .idle := by
  have hstart : ∀ loop call, l ≠ .start i loop call := by
    intro loop call he
    subst he
    obtain ⟨_, rfl⟩ := start_spec h
    have he : call.entry = .idle := (Function.update_self i _ s.pc).symm.trans hpc
    cases call <;> cases he
  refine ⟨hstart, ?_⟩
  by_cases hl : ∃ j loop call, l = .start j loop call
  · obtain ⟨j, loop, call, rfl⟩ := hl
    obtain ⟨_, rfl⟩ := start_spec h
    have hj : i ≠ j := by
      intro he
      subst he
      exact hstart loop call rfl
    exact (Function.update_of_ne hj _ s.pc).symm.trans hpc
  · exact (later_step h (fun j loop call he => hl ⟨j, loop, call, he⟩) i).idle hpc

/-- An operation that has not been called has taken nothing and is owed nothing. -/
theorem idle_untouched (h : Reachable (system T) s) (hpc : s.pc i = .idle) :
    s.takenBy i = [] ∧ s.owed i = 0 := by
  revert hpc
  refine h.invariant (I := fun s => s.pc i = .idle → s.takenBy i = [] ∧ s.owed i = 0) ?_ ?_
  · intro s h0 _
    obtain ⟨capacity, rfl⟩ := h0
    exact ⟨rfl, rfl⟩
  · intro s l t hr hI hs hpc'
    have hi := reachable_inv hr
    have h := step_spec hi.ready hs
    obtain ⟨hstart, hpc⟩ := idle_before h hpc'
    have hrun : l ≠ .run i := by
      intro he
      subst he
      have hrun : runOp s i = some t := hs
      simp [runOp, hpc] at hrun
    have hop := hi.ready.op i
    have hu : ¬ s.Timed i := by
      intro ht
      have := hop.timed ht
      rw [hpc] at this
      cases this
    have hfr := hop.receiver (by rw [hpc]; rfl)
    have hna : i ∉ s.chan.activeReceivers := fun hm => hfr.queue (List.mem_of_mem_filter hm)
    obtain ⟨htaken, howed⟩ := hI hpc
    obtain ⟨vs, hvs, hfate, _⟩ := spared_step hi (fun ht => absurd ht hu) (fun he => absurd he hrun) h
    refine ⟨?_, owed_step h (fun ht => absurd ht hu) (by rw [hpc]; rfl) hstart (hop.idle hpc).queue
      (fun he => absurd he hrun) (fun hm => absurd hm hna) howed⟩
    rw [hvs, htaken]
    cases hfate with
    | same _ _ => rfl
    | handed hh _ _ _ => exact absurd (List.mem_of_mem_head? hh) hna
    | closed _ _ _ _ _ => rfl

/-- A call of `next` begins with a look. -/
theorem next_start {loop : Bool} (h : Reachable (system T) s)
    (hs : step s (.start i loop .next) = some t) : Next t i ∧ t.takenBy i = [] := by
  have hi := reachable_inv h
  have hspec := step_spec hi.ready hs
  obtain ⟨hpc, rfl⟩ := start_spec hspec
  have hop := hi.ready.op i
  have hfr := hop.receiver (by rw [hpc]; rfl)
  obtain ⟨htaken, howed⟩ := idle_untouched h hpc
  refine ⟨⟨?_, (hop.idle hpc).queue, fun _ => howed, stage_of (.looking ?_) htaken⟩, htaken⟩
  · intro ht
    have := hop.timed ht
    rw [hpc] at this
    cases this
  · exact congrArg Pc.looks (Function.update_self i _ s.pc)

theorem Hands.unique {j : OpId} (h : Hands s l i) (h' : Hands s l j) : i = j := by
  rcases h with ⟨rfl, hlook, _⟩ | ⟨a, rfl, hsend, hhead⟩
  · rcases h' with ⟨he, _, _⟩ | ⟨b, he, hsend, _⟩
    · cases he
      rfl
    · cases he
      rcases looks_cases hlook with hp | hp <;> rw [hp] at hsend <;> cases hsend
  · rcases h' with ⟨he, hlook, _⟩ | ⟨b, _, _, hhead'⟩
    · cases he
      rcases looks_cases hlook with hp | hp <;> rw [hp] at hsend <;> cases hsend
    · rw [hhead] at hhead'
      exact Option.some.inj hhead'

theorem next_length (hn : Next s i) : (s.takenBy i).length ≤ 1 := by
  have hstage := hn.stage
  generalize s.takenBy i = vs at hstage ⊢
  cases hstage with
  | looking _ => exact Nat.zero_le _
  | parked _ _ _ _ => exact Nat.zero_le _
  | @settled o _ _ _ => cases o <;> simp

/-- A `next` that returns a value has taken it, and one that returns none has
taken nothing. -/
theorem next_done (hn : Next s i) {r : Result T} (hr : s.pc i = .done r) :
    ∃ o, r = .value o ∧ s.takenBy i = o.toList := by
  have hstage := hn.stage
  generalize s.takenBy i = vs at hstage
  cases hstage with
  | looking hl => rw [hr] at hl; cases hl
  | parked hp _ _ _ => rw [hr] at hp; cases hp
  | @settled o hp _ _ =>
    rw [hr] at hp
    cases hp
    exact ⟨o, rfl, rfl⟩

end LuvCoro.Channel
