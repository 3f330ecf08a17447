import LuvCoro.Stream.Writes

/-! # What the handle of a stream sends

It has each write at one place from its acceptance until its callback, and has sent the
bytes of the writes in the order in which it has accepted them. -/
namespace LuvCoro.Stream.Writes

open Transition
open Request (streamWrite UV_EINVAL Posts)

/-- What has been sent of a write. -/
def Sys.piece (messages : Nat → List (List UInt8)) (s : Sys) (i : Id) : List UInt8 :=
  (buffer messages i).take (s.progress i)

/-- Where the handle has a write. -/
structure Place (messages : Nat → List (List UInt8)) (s : Sys) (i : Id) : Prop where
  accepted : i ∈ s.accepted ↔ (s.ops i).flight ≠ .idle
  queued : i ∈ s.queue ↔ (s.ops i).flight = .queued ∨ (s.ops i).flight = .working
  waiting : i ∈ s.queue.tail → (s.ops i).flight = .queued
  sent : i ∈ s.sent ↔ ∃ status, (s.ops i).flight = .worked status
  uncancelled : (s.ops i).flight ≠ .cancelled
  unsent : (s.ops i).flight = .idle ∨ (s.ops i).flight = .queued → s.progress i = 0
  whole : (s.ops i).produced ≠ none →
    i ∈ s.accepted ∧ i ∉ s.queue ∧ s.progress i = (buffer messages i).length

structure Handle (messages : Nat → List (List UInt8)) (s : Sys) : Prop where
  place : ∀ i, Place messages s i
  queue : s.queue <:+ s.accepted
  nodup : s.accepted.Nodup
  sentOnce : s.sent.Nodup
  wire : s.wire = s.accepted.flatMap (s.piece messages)

section
variable {messages : Nat → List (List UInt8)} {stopPossible : Id → Bool} {s t : Sys} {l : Label}
  {i j : Id} {is : List Id} {o : Request.Sys}

theorem Place.frame (h : Place messages s j) (hf : (t.ops j).flight = (s.ops j).flight)
    (hd : (t.ops j).produced = (s.ops j).produced) (ha : j ∈ t.accepted ↔ j ∈ s.accepted)
    (hq : j ∈ t.queue ↔ j ∈ s.queue) (hw : j ∈ t.queue.tail → j ∈ s.queue.tail)
    (hs : j ∈ t.sent ↔ j ∈ s.sent) (hp : t.progress j = s.progress j) : Place messages t j where
  accepted := by
    rw [ha, hf]
    exact h.accepted
  queued := by
    rw [hq, hf]
    exact h.queued
  waiting hj := by
    rw [hf]
    exact h.waiting (hw hj)
  sent := by
    rw [hs, hf]
    exact h.sent
  uncancelled := by
    rw [hf]
    exact h.uncancelled
  unsent := by
    rw [hf, hp]
    exact h.unsent
  whole := by
    rw [hd, ha, hq, hp]
    exact h.whole

/-- Another write makes a step. -/
theorem Place.other (h : Place messages s j) (hj : j ≠ i)
    (ho : t.ops = Function.update s.ops i o) (ha : j ∈ t.accepted ↔ j ∈ s.accepted)
    (hq : j ∈ t.queue ↔ j ∈ s.queue) (hw : j ∈ t.queue.tail → j ∈ s.queue.tail)
    (hs : j ∈ t.sent ↔ j ∈ s.sent) (hp : t.progress j = s.progress j) : Place messages t j := by
  have hsame : t.ops j = s.ops j := by
    rw [ho]
    exact Function.update_of_ne hj ..
  exact h.frame (by rw [hsame]) (by rw [hsame]) ha hq hw hs hp

/-- Nothing happens to the request. -/
theorem Handle.same (h : Handle messages s) (ho : t.ops = Function.update s.ops i o)
    (hf : o.flight = (s.ops i).flight) (hd : o.produced = (s.ops i).produced)
    (ha : t.accepted = s.accepted) (hq : t.queue = s.queue) (hs : t.sent = s.sent)
    (hp : t.progress = s.progress) (hw : t.wire = s.wire) : Handle messages t where
  place j := by
    have hfj : (t.ops j).flight = (s.ops j).flight := by
      rw [ho]
      by_cases hj : j = i
      · subst hj
        rw [Function.update_self, hf]
      · rw [Function.update_of_ne hj]
    have hdj : (t.ops j).produced = (s.ops j).produced := by
      rw [ho]
      by_cases hj : j = i
      · subst hj
        rw [Function.update_self, hd]
      · rw [Function.update_of_ne hj]
    exact (h.place j).frame hfj hdj (by rw [ha]) (by rw [hq]) (by rw [hq]; exact id) (by rw [hs])
      (by rw [hp])
  queue := by
    rw [hq, ha]
    exact h.queue
  nodup := by
    rw [ha]
    exact h.nodup
  sentOnce := by
    rw [hs]
    exact h.sentOnce
  wire := by
    unfold Sys.piece
    rw [hw, ha, hp]
    exact h.wire

theorem piece_unsent (h : s.progress i = 0) : s.piece messages i = [] := by
  unfold Sys.piece
  rw [h, List.take_zero]

/-- `uv_write` takes the request. -/
theorem Handle.accept (h : Handle messages s) (hidle : (s.ops i).flight = .idle)
    (hf : o.flight = .queued) (hd : o.produced = (s.ops i).produced) :
    Handle messages { s.set i o with queue := s.queue ++ [i], accepted := s.accepted ++ [i] } := by
  have hp := h.place i
  have hnew : i ∉ s.accepted := fun hm => hp.accepted.mp hm hidle
  have hnone : o.produced = none := by
    rw [hd]
    by_contra hne
    exact hnew (hp.whole hne).1
  refine ⟨fun j => ?_, ?_, ?_, h.sentOnce, ?_⟩
  · by_cases hj : j = i
    · subst hj
      have hns : j ∉ s.sent := by
        rw [hp.sent, hidle]
        simp
      exact ⟨by simp [hf], by simp [hf], by simp [hf], by simpa [Sys.set, hf] using hns, by simp [hf],
        fun _ => hp.unsent (.inl hidle), by simp [hnone]⟩
    · refine (h.place j).other hj rfl (by simp [hj]) (by simp [hj]) (fun hm => ?_) Iff.rfl rfl
      cases hq : s.queue with
      | nil => simp [hq] at hm
      | cons k ks => simpa [hq, hj] using hm
  · obtain ⟨old, hold⟩ := h.queue
    exact ⟨old, by rw [← hold, List.append_assoc]⟩
  · refine List.nodup_append.mpr ⟨h.nodup, by simp, fun a ha b hb he => hnew ?_⟩
    rw [← List.mem_singleton.mp hb, ← he]
    exact ha
  · rw [List.flatMap_append, List.flatMap_singleton]
    show s.wire = _ ++ s.piece messages i
    rw [piece_unsent (hp.unsent (.inl hidle)), List.append_nil]
    exact h.wire

/-- A closure of the write is run. -/
theorem Handle.runPosted (h : Handle messages s) {rc : Int}
    (hfresh : Request.Closure.start ∈ (s.ops i).posted → (s.ops i).flight = .idle)
    (hs : Request.step streamWrite (stopPossible i) (s.ops i)
      (.runPosted 0 (answer (s.ops i) rc)) = some o) :
    Handle messages ({ s with turns := is }.handOver i o) := by
  have hsame : o.flight = (s.ops i).flight → o.produced = (s.ops i).produced →
      Handle messages ({ s with turns := is }.handOver i o) := by
    intro hf hd
    have hno : ¬ ((s.ops i).flight = .idle ∧ o.flight = .queued) := by
      rw [hf]
      rintro ⟨hi, hq⟩
      rw [hi] at hq
      cases hq
    unfold Sys.handOver
    rw [if_neg hno]
    exact h.same (i := i) rfl hf hd rfl rfl rfl rfl rfl
  simp only [Request.step] at hs
  split at hs
  · cases hs
  · rename_i cs hposted
    cases hs
    have hidle := hfresh (by rw [hposted]; simp)
    obtain ⟨-, hd, hf | hf⟩ := Request.start_flight (k := streamWrite)
      { s.ops i with posted := cs } 0 (answer (s.ops i) rc)
    · exact hsame hf hd
    · unfold Sys.handOver
      rw [if_pos ⟨hidle, hf⟩]
      exact Handle.accept (s := { s with turns := is })
        (h.same (i := i) (o := s.ops i) (by simp) rfl rfl rfl rfl rfl rfl rfl) hidle hf hd
  · rename_i cs hposted
    cases hs
    have hne : answer (s.ops i) rc ≠ 0 := by
      simp [answer, hposted, UV_EINVAL]
    obtain ⟨-, hd, hf⟩ := Request.cancel_flight { s.ops i with posted := cs } hne
    exact hsame hf hd

theorem Handle.head (h : Handle messages s) (hq : s.queue = i :: is) :
    i ∈ s.accepted ∧ i ∉ is ∧ (i :: is).Nodup := by
  have hsub : (i :: is).Nodup := by
    rw [← hq]
    exact h.nodup.sublist h.queue.sublist
  refine ⟨h.queue.subset (by rw [hq]; simp), ?_, hsub⟩
  exact (List.nodup_cons.mp hsub).1

theorem Handle.inFlight (h : Handle messages s) (hq : s.queue = i :: is) : (s.ops i).InFlight := by
  rcases (h.place i).queued.mp (by rw [hq]; simp) with hf | hf
  · exact ⟨by rw [hf]; simp, by rw [hf]; simp⟩
  · exact ⟨by rw [hf]; simp, by rw [hf]; simp⟩

/-- libuv begins with the request at the head of its queue. -/
theorem Handle.begin (h : Handle messages s) (hq : s.queue = i :: is)
    (hs : Request.step streamWrite (stopPossible i) (s.ops i) .begin = some o) :
    Handle messages (s.set i o) := by
  simp only [Request.step] at hs
  split at hs <;> cases hs
  rename_i hqueued
  have hp := h.place i
  obtain ⟨hacc, hni, -⟩ := h.head hq
  refine ⟨fun j => ?_, h.queue, h.nodup, h.sentOnce, h.wire⟩
  by_cases hj : j = i
  · subst hj
    have hns : j ∉ s.sent := by
      rw [hp.sent, hqueued]
      simp
    refine ⟨by simpa [Sys.set] using hacc, by simp [Sys.set, hq], fun hm => ?_,
      by simpa [Sys.set] using hns, by simp [Sys.set], by simp [Sys.set], fun hne => ?_⟩
    · rw [show (s.set j _).queue = s.queue from rfl, hq] at hm
      exact absurd hm hni
    · rw [set_ops_self] at hne
      exact hp.whole hne
  · exact (h.place j).other hj rfl Iff.rfl Iff.rfl id Iff.rfl rfl

/-- Some bytes of the request at the head leave. -/
theorem Handle.transmit (h : Handle messages s) {n : Nat} {freed : List UInt8}
    (hq : s.queue = i :: is) (hw : (s.ops i).flight = .working)
    (hk : (s.ops i).op.keepAlive = true) :
    Handle messages { s with
      progress := Function.update s.progress i (s.progress i + n)
      wire := s.wire ++ s.bytes (buffer messages i) i n freed } := by
  have hp := h.place i
  obtain ⟨hacc, hni, hnd⟩ := h.head hq
  obtain ⟨old, hold⟩ := h.queue
  rw [hq] at hold
  have hdisj : ∀ j ∈ old, j ≠ i := by
    have hnd := h.nodup
    rw [← hold] at hnd
    intro j hj he
    exact (List.nodup_append.mp hnd).2.2 j hj i (by simp) he
  refine ⟨fun j => ?_, h.queue, h.nodup, h.sentOnce, ?_⟩
  · by_cases hj : j = i
    · subst hj
      refine ⟨hp.accepted, hp.queued, hp.waiting, hp.sent, hp.uncancelled, ?_, fun hne => ?_⟩
      · simp [hw]
      · exact absurd (by rw [hq]; simp) (hp.whole hne).2.1
    · exact (h.place j).frame rfl rfl Iff.rfl Iff.rfl id Iff.rfl (Function.update_of_ne hj ..)
  · have hrest : ∀ j ∈ is, s.piece messages j = [] := fun j hj =>
      piece_unsent ((h.place j).unsent (.inr ((h.place j).waiting (by rw [hq]; exact hj))))
    have hother : ∀ j, j ≠ i → Sys.piece messages { s with
        progress := Function.update s.progress i (s.progress i + n)
        wire := s.wire ++ s.bytes (buffer messages i) i n freed } j = s.piece messages j := by
      intro j hj
      unfold Sys.piece
      dsimp only
      rw [Function.update_of_ne hj]
    have hself : Sys.piece messages { s with
        progress := Function.update s.progress i (s.progress i + n)
        wire := s.wire ++ s.bytes (buffer messages i) i n freed } i =
        s.piece messages i ++ s.bytes (buffer messages i) i n freed := by
      unfold Sys.bytes Sys.piece
      dsimp only
      rw [if_pos hk, Function.update_self, List.take_add]
    generalize Sys.piece messages { s with
        progress := Function.update s.progress i (s.progress i + n)
        wire := s.wire ++ s.bytes (buffer messages i) i n freed } = piece at hother hself ⊢
    have hwire := h.wire
    rw [← hold, List.flatMap_append, List.flatMap_cons,
      List.flatMap_eq_nil_iff.mpr hrest, List.append_nil] at hwire
    have hold' : old.flatMap piece = old.flatMap (s.piece messages) :=
      List.flatMap_congr fun j hj => hother j (hdisj j hj)
    have hrest' : is.flatMap piece = [] := by
      refine List.flatMap_eq_nil_iff.mpr fun j hj => ?_
      rw [hother j fun he => hni (he ▸ hj)]
      exact hrest j hj
    dsimp only
    rw [← hold, List.flatMap_append, List.flatMap_cons, hold', hrest', hself, hwire,
      List.append_nil, List.append_assoc]

/-- libuv is done with the request at the head. -/
theorem Handle.retire (h : Handle messages s) {status : Int} (hq : s.queue = i :: is)
    (hst : status < 0 ∨ status = 0 ∧ s.progress i = (buffer messages i).length)
    (hs : Request.step streamWrite (stopPossible i) (s.ops i) (.work status) = some o) :
    Handle messages { s.set i o with queue := is, sent := s.sent ++ [i] } := by
  simp only [Request.step] at hs
  split at hs <;> cases hs
  rename_i hw
  have hp := h.place i
  obtain ⟨hacc, hni, hnd⟩ := h.head hq
  have hns : i ∉ s.sent := by
    rw [hp.sent, hw]
    simp
  refine ⟨fun j => ?_, ?_, h.nodup, ?_, h.wire⟩
  · by_cases hj : j = i
    · subst hj
      refine ⟨by simpa [Sys.set] using hacc, by simpa [Sys.set] using hni, fun hm => ?_,
        by simp [Sys.set], by simp [Sys.set], by simp [Sys.set], fun hne => ⟨hacc, hni, ?_⟩⟩
      · exact absurd (List.mem_of_mem_tail hm) hni
      · refine (hst.resolve_left fun hneg => ?_).2
        simp only [set_ops_self] at hne
        rw [if_neg (by omega)] at hne
        exact hne rfl
    · refine (h.place j).other hj rfl Iff.rfl ?_ ?_ (by simp [hj]) rfl
      · rw [hq]
        simp [hj]
      · rw [hq]
        exact fun hm => List.mem_of_mem_tail hm
  · obtain ⟨old, hold⟩ := h.queue
    refine ⟨old ++ [i], ?_⟩
    show old ++ [i] ++ is = s.accepted
    rw [← hold, hq, List.append_assoc]
    rfl
  · refine List.nodup_append.mpr ⟨h.sentOnce, by simp, fun a ha b hb he => hns ?_⟩
    rw [← List.mem_singleton.mp hb, ← he]
    exact ha

/-- libuv calls the callback. -/
theorem Handle.callback (h : Handle messages s) (hsent : s.sent = i :: is)
    (hs : Request.step streamWrite (stopPossible i) (s.ops i) .callback = some o) :
    Handle messages { s.set i o with sent := is } := by
  have hp := h.place i
  obtain ⟨status, hw⟩ := hp.sent.mp (by rw [hsent]; simp)
  simp only [Request.step, hw] at hs
  cases hs
  have hf : ((s.ops i).finish streamWrite status).flight = .delivered :=
    Request.finish_flight streamWrite _ _
  have hd : ((s.ops i).finish streamWrite status).produced = (s.ops i).produced :=
    (Request.finish_keeps _ _).2
  have honce := h.sentOnce
  rw [hsent] at honce
  refine ⟨fun j => ?_, h.queue, h.nodup, (List.nodup_cons.mp honce).2, h.wire⟩
  by_cases hj : j = i
  · subst hj
    have hacc : j ∈ s.accepted := hp.accepted.mpr (by rw [hw]; simp)
    have hnq : j ∉ s.queue := by
      rw [hp.queued, hw]
      simp
    refine ⟨by simpa [Sys.set, hf] using hacc, by simpa [Sys.set, hf] using hnq, fun hm => ?_,
      by simpa [Sys.set, hf] using (List.nodup_cons.mp honce).1, by simp [Sys.set, hf],
      by simp [Sys.set, hf], fun hne => ?_⟩
    · exact absurd (List.mem_of_mem_tail hm) hnq
    · simp only [set_ops_self, hd] at hne
      exact hp.whole hne
  · exact (h.place j).other hj rfl Iff.rfl Iff.rfl id (by rw [hsent]; simp [hj]) rfl

end

end LuvCoro.Stream.Writes
