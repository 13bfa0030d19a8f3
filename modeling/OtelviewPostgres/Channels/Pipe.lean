import OtelviewPostgres.Relational.Runs

/-!
# Tasks that feed a bounded channel

A task goes over a list, makes one item of each element and sends it into a channel of bounded
capacity, waiting where the channel is full. The other end takes the items one by one until it sees
the end of the stream, or leaves before. A task that finds the other end gone stops.
-/

namespace Channels

open Relational

/-- What the task is at. -/
inductive Sender (α : Type*) where
  | idle
  /-- It has made an item and waits for room. -/
  | holding (a : α)
  | done

/-- What the other end is at. -/
inductive Reader where
  | reading
  /-- It has seen the end of the stream. -/
  | ended
  | gone
deriving DecidableEq

/-- The elements that no item was made of yet, the items on their way, and those that were taken. -/
structure Pipe (ι α : Type*) where
  ahead : List ι
  sender : Sender α
  buffer : List α
  reader : Reader
  taken : List α

inductive PipeAction where
  | make
  | send
  | close
  | take
  | finish
  | leave
deriving DecidableEq

variable {ι α : Type*}

/-- Nothing is made yet. -/
def Pipe.start (items : List ι) : Pipe ι α where
  ahead := items
  sender := .idle
  buffer := []
  reader := .reading
  taken := []

/-- One step, where it is possible. -/
def Pipe.step (make : ι → α) (capacity : ℕ) (p : Pipe ι α) : PipeAction → Option (Pipe ι α)
  | .make =>
    match p.sender, p.ahead with
    | .idle, x :: ahead => some { p with ahead, sender := .holding (make x) }
    | _, _ => none
  | .send =>
    match p.sender with
    | .holding a =>
      if p.reader = .gone then some { p with sender := .done }
      else if p.buffer.length < capacity then some { p with sender := .idle, buffer := p.buffer ++ [a] }
      else none
    | _ => none
  | .close =>
    match p.sender, p.ahead with
    | .idle, [] => some { p with sender := .done }
    | _, _ => none
  | .take =>
    match p.reader, p.buffer with
    | .reading, a :: buffer => some { p with buffer, taken := p.taken ++ [a] }
    | _, _ => none
  | .finish =>
    match p.reader, p.buffer, p.sender with
    | .reading, [], .done => some { p with reader := .ended }
    | _, _, _ => none
  | .leave =>
    match p.reader with
    | .reading => some { p with reader := .gone, buffer := [] }
    | _ => none

/-- The item that the task waits to send. -/
def Sender.held : Sender α → List α
  | .holding a => [a]
  | _ => []

/-- Room for an item that was made and is not in the channel. -/
def Sender.room : Sender α → ℕ
  | .idle => 0
  | _ => 1

lemma Sender.room_le_one (s : Sender α) : s.room ≤ 1 := by
  cases s <;> simp [room]

/-- The steps that a task may still take for what it is at. -/
def Sender.toGo : Sender α → ℕ
  | .idle => 1
  | .holding _ => 3
  | .done => 0

/-- A bound on the steps that are left. -/
def Pipe.toGo (p : Pipe ι α) : ℕ :=
  3 * p.ahead.length + p.sender.toGo + p.buffer.length + if p.reader = .reading then 1 else 0

namespace Pipe

variable {make : ι → α} {capacity : ℕ} {items : List ι} {p p' : Pipe ι α} {a : PipeAction}

/-- Everything a step can do. -/
theorem step_cases (h : p.step make capacity a = some p') :
    (∃ x ahead, a = .make ∧ p.sender = .idle ∧ p.ahead = x :: ahead ∧
      p' = { p with ahead, sender := .holding (make x) }) ∨
    (∃ b, a = .send ∧ p.sender = .holding b ∧ p.reader = .gone ∧ p' = { p with sender := .done }) ∨
    (∃ b, a = .send ∧ p.sender = .holding b ∧ p.reader ≠ .gone ∧ p.buffer.length < capacity ∧
      p' = { p with sender := .idle, buffer := p.buffer ++ [b] }) ∨
    (a = .close ∧ p.sender = .idle ∧ p.ahead = [] ∧ p' = { p with sender := .done }) ∨
    (∃ b buffer, a = .take ∧ p.reader = .reading ∧ p.buffer = b :: buffer ∧
      p' = { p with buffer, taken := p.taken ++ [b] }) ∨
    (a = .finish ∧ p.reader = .reading ∧ p.buffer = [] ∧ p.sender = .done ∧ p' = { p with reader := .ended }) ∨
    (a = .leave ∧ p.reader = .reading ∧ p' = { p with reader := .gone, buffer := [] }) := by
  obtain ⟨ahead, sender, buffer, reader, taken⟩ := p
  cases a with
  | make =>
    cases sender <;> cases ahead <;> cases h
    exact .inl ⟨_, _, rfl, rfl, rfl, rfl⟩
  | send =>
    cases sender with
    | idle => cases h
    | done => cases h
    | holding b =>
      dsimp only [step] at h
      split at h
      · cases h
        exact .inr (.inl ⟨b, rfl, rfl, ‹_›, rfl⟩)
      · split at h
        · cases h
          exact .inr (.inr (.inl ⟨b, rfl, rfl, ‹_›, ‹_›, rfl⟩))
        · cases h
  | close =>
    cases sender <;> cases ahead <;> cases h
    exact .inr (.inr (.inr (.inl ⟨rfl, rfl, rfl, rfl⟩)))
  | take =>
    cases reader <;> cases buffer <;> cases h
    exact .inr (.inr (.inr (.inr (.inl ⟨_, _, rfl, rfl, rfl, rfl⟩))))
  | finish =>
    cases reader <;> cases buffer <;> cases sender <;> cases h
    exact .inr (.inr (.inr (.inr (.inr (.inl ⟨rfl, rfl, rfl, rfl, rfl⟩)))))
  | leave =>
    cases reader <;> cases h
    exact .inr (.inr (.inr (.inr (.inr (.inr ⟨rfl, rfl, rfl⟩)))))

/-- Unless the other end is gone no item is lost, doubled or out of order, and the task is never far
ahead of it. -/
structure Sound (make : ι → α) (capacity : ℕ) (items : List ι) (p : Pipe ι α) : Prop where
  conserved : p.reader ≠ .gone → p.taken ++ p.buffer ++ p.sender.held ++ p.ahead.map make = items.map make
  taken : ∃ rest, p.taken ++ rest = items.map make
  buffer : p.buffer.length ≤ capacity
  made : items.length ≤ p.ahead.length + p.taken.length + capacity + p.sender.room
  done : p.reader ≠ .gone → p.sender = .done → p.ahead = []
  ended : p.reader = .ended → p.sender = .done ∧ p.buffer = []

lemma sound_start (make : ι → α) (capacity : ℕ) (items : List ι) : (start items).Sound make capacity items where
  conserved _ := rfl
  taken := ⟨items.map make, rfl⟩
  buffer := Nat.zero_le _
  made := by
    change items.length ≤ items.length + 0 + capacity + 0
    omega
  done _ h := by cases h
  ended h := by cases h

/-- The items of which some are made, where nothing is lost. -/
lemma length_of_conserved (h : p.taken ++ p.buffer ++ p.sender.held ++ p.ahead.map make = items.map make) :
    p.taken.length + p.buffer.length + p.sender.held.length + p.ahead.length = items.length := by
  have hlength := congrArg List.length h
  simpa only [List.length_append, List.length_map] using hlength

lemma Sound.step (h : p.Sound make capacity items) (hstep : p.step make capacity a = some p') :
    p'.Sound make capacity items := by
  rcases step_cases hstep with ⟨x, ahead, -, hsender, hahead, rfl⟩ | ⟨b, -, hsender, hgone, rfl⟩ |
    ⟨b, -, hsender, hreader, hroom, rfl⟩ | ⟨-, hsender, hahead, rfl⟩ | ⟨b, buffer, -, hreading, hbuffer, rfl⟩ |
    ⟨-, hreading, hbuffer, hsender, rfl⟩ | ⟨-, hreading, rfl⟩
  · have hmade := h.made
    rw [hsender, hahead, List.length_cons] at hmade
    refine ⟨fun hreader => ?_, h.taken, h.buffer, ?_, (fun _ hdone => by cases hdone), fun hended => ?_⟩
    · have hconserved := h.conserved hreader
      rw [hsender, hahead] at hconserved
      simpa [Sender.held] using hconserved
    · dsimp only [Sender.room] at hmade ⊢
      omega
    · rw [(h.ended hended).1] at hsender
      cases hsender
  · have hmade := h.made
    rw [hsender] at hmade
    exact ⟨fun hreader => absurd hgone hreader, h.taken, h.buffer, hmade, fun hreader _ => absurd hgone hreader,
      fun hended => absurd (hgone.symm.trans hended) (by decide)⟩
  · have hconserved := h.conserved hreader
    have hlength := length_of_conserved hconserved
    rw [hsender] at hconserved hlength
    have hroom' : (p.buffer ++ [b]).length ≤ capacity := by
      rw [List.length_append, List.length_singleton]
      omega
    refine ⟨fun _ => ?_, h.taken, hroom', ?_, (fun _ hdone => by cases hdone), fun hended => ?_⟩
    · simpa [Sender.held] using hconserved
    · dsimp only [Sender.held, Sender.room, List.length_singleton] at hlength ⊢
      omega
    · rw [(h.ended hended).1] at hsender
      cases hsender
  · have hmade := h.made
    rw [hsender] at hmade
    refine ⟨fun hreader => ?_, h.taken, h.buffer, ?_, fun _ _ => hahead, fun hended => ?_⟩
    · have hconserved := h.conserved hreader
      rw [hsender] at hconserved
      exact hconserved
    · dsimp only [Sender.room] at hmade ⊢
      omega
    · rw [(h.ended hended).1] at hsender
      cases hsender
  · have hreader : p.reader ≠ .gone := by
      rw [hreading]
      decide
    have hconserved := h.conserved hreader
    have hmade := h.made
    have hlength := h.buffer
    rw [hbuffer] at hconserved hlength
    refine ⟨fun _ => ?_, ⟨buffer ++ p.sender.held ++ p.ahead.map make, ?_⟩, ?_, ?_, h.done, fun hended => ?_⟩
    · simpa using hconserved
    · simpa using hconserved
    · exact (Nat.le_succ _).trans hlength
    · dsimp only
      rw [List.length_append]
      omega
    · rw [hreading] at hended
      cases hended
  · have hreader : p.reader ≠ .gone := by
      rw [hreading]
      decide
    exact ⟨fun _ => h.conserved hreader, h.taken, h.buffer, h.made, fun _ => h.done hreader,
      fun _ => ⟨hsender, hbuffer⟩⟩
  · exact ⟨fun hreader => absurd rfl hreader, h.taken, Nat.zero_le _, h.made, fun hreader => absurd rfl hreader,
      fun hended => by cases hended⟩

theorem sound_of_run {actions : List PipeAction}
    (hrun : runSteps (Pipe.step make capacity) actions (start items) = some p) : p.Sound make capacity items :=
  invariant_of_run (fun _ _ _ h hstep => h.step hstep) (sound_start make capacity items) hrun

/-- Whoever sees the end of the stream has taken all of it. -/
lemma Sound.taken_of_ended (h : p.Sound make capacity items) (hended : p.reader = .ended) :
    p.taken = items.map make := by
  have hreader : p.reader ≠ .gone := by
    rw [hended]
    decide
  obtain ⟨hsender, hbuffer⟩ := h.ended hended
  have hconserved := h.conserved hreader
  rw [hsender, hbuffer, h.done hreader hsender] at hconserved
  simpa [Sender.held] using hconserved

lemma toGo_step (h : p.step make capacity a = some p') : p'.toGo < p.toGo := by
  unfold toGo
  rcases step_cases h with ⟨x, ahead, -, hsender, hahead, rfl⟩ | ⟨b, -, hsender, hgone, rfl⟩ |
    ⟨b, -, hsender, hreader, hroom, rfl⟩ | ⟨-, hsender, hahead, rfl⟩ | ⟨b, buffer, -, hreading, hbuffer, rfl⟩ |
    ⟨-, hreading, hbuffer, hsender, rfl⟩ | ⟨-, hreading, rfl⟩
  · simp only [hsender, hahead, Sender.toGo, List.length_cons]
    omega
  · simp only [hsender, Sender.toGo]
    omega
  · simp only [hsender, Sender.toGo, List.length_append, List.length_singleton]
    omega
  · simp only [hsender, Sender.toGo]
    omega
  · simp only [hbuffer, List.length_cons]
    omega
  · simp [hreading]
  · simp only [hreading, List.length_nil, if_true, reduceCtorEq, if_false]
    omega

/-- No run is longer than what was to go. -/
lemma length_le_of_run {actions : List PipeAction} (hrun : runSteps (Pipe.step make capacity) actions p = some p') :
    actions.length + p'.toGo ≤ p.toGo := by
  induction actions generalizing p with
  | nil =>
    obtain rfl := Option.some.inj hrun
    exact (Nat.zero_add _).le
  | cons a actions ih =>
    rw [runSteps_cons] at hrun
    obtain ⟨p₁, hstep, hrun⟩ := Option.bind_eq_some_iff.mp hrun
    have hlt := toGo_step hstep
    have hrest := ih hrun
    rw [List.length_cons]
    omega

/-- While the other end reads, one of the two can go on. -/
lemma Sound.exists_step (h : p.Sound make capacity items) (hcapacity : 0 < capacity) (hreading : p.reader = .reading) :
    ∃ a p', a ≠ .leave ∧ p.step make capacity a = some p' ∧ (p'.reader = .reading ∨ p'.reader = .ended) := by
  have hreader : p.reader ≠ .gone := by
    rw [hreading]
    decide
  obtain ⟨ahead, sender, buffer, reader, taken⟩ := p
  cases hreading
  cases buffer with
  | cons b buffer => exact ⟨.take, _, by decide, rfl, .inl rfl⟩
  | nil =>
    cases sender with
    | idle =>
      cases ahead with
      | nil => exact ⟨.close, _, by decide, rfl, .inl rfl⟩
      | cons x ahead => exact ⟨.make, _, by decide, rfl, .inl rfl⟩
    | holding b =>
      have hstep : Pipe.step make capacity ⟨ahead, .holding b, [], .reading, taken⟩ .send =
          some ⟨ahead, .idle, [b], .reading, taken⟩ := by
        dsimp only [Pipe.step]
        rw [if_neg (by decide)]
        exact if_pos hcapacity
      exact ⟨.send, _, by decide, hstep, .inl rfl⟩
    | done => exact ⟨.finish, _, by decide, rfl, .inr rfl⟩

/-- While the other end reads, it can come to the end of the stream. -/
lemma Sound.exists_run_ended (h : p.Sound make capacity items) (hcapacity : 0 < capacity)
    (hreading : p.reader = .reading) :
    ∃ actions p', .leave ∉ actions ∧ runSteps (Pipe.step make capacity) actions p = some p' ∧ p'.reader = .ended := by
  induction hgo : p.toGo using Nat.strong_induction_on generalizing p with
  | _ n ih =>
    obtain ⟨a, p₁, hleave, hstep, hnext⟩ := h.exists_step hcapacity hreading
    rcases hnext with hreading₁ | hended₁
    · obtain ⟨actions, p', hactions, hrun, hended⟩ := ih _ (hgo ▸ toGo_step hstep) (h.step hstep) hreading₁ rfl
      refine ⟨a :: actions, p', ?_, ?_, hended⟩
      · rw [List.mem_cons, not_or]
        exact ⟨hleave.symm, hactions⟩
      · rw [runSteps_cons, hstep]
        exact hrun
    · refine ⟨[a], p₁, ?_, ?_, hended₁⟩
      · rw [List.mem_singleton]
        exact hleave.symm
      · rw [runSteps_cons, hstep]
        rfl

/-- The steps that are left to a task once the other end is gone. -/
def toStop (p : Pipe ι α) : ℕ :=
  match p.sender with
  | .idle => 2
  | .holding _ => 1
  | .done => 0

lemma toStop_le_two (p : Pipe ι α) : p.toStop ≤ 2 := by
  unfold toStop
  split <;> omega

lemma toStop_step (hgone : p.reader = .gone) (h : p.step make capacity a = some p') :
    p'.reader = .gone ∧ p'.toStop < p.toStop := by
  unfold toStop
  rcases step_cases h with ⟨x, ahead, -, hsender, -, rfl⟩ | ⟨b, -, hsender, -, rfl⟩ | ⟨b, -, -, hreader, -, -⟩ |
    ⟨-, hsender, -, rfl⟩ | ⟨b, buffer, -, hreading, -, -⟩ | ⟨-, hreading, -, -, -⟩ | ⟨-, hreading, -⟩
  · exact ⟨hgone, by simp [hsender]⟩
  · exact ⟨hgone, by simp [hsender]⟩
  · exact absurd hgone hreader
  · exact ⟨hgone, by simp [hsender]⟩
  · exact absurd (hgone.symm.trans hreading) (by decide)
  · exact absurd (hgone.symm.trans hreading) (by decide)
  · exact absurd (hgone.symm.trans hreading) (by decide)

/-- A task that the other end has left stops after at most one more item. -/
lemma length_le_of_gone {actions : List PipeAction} (hgone : p.reader = .gone)
    (hrun : runSteps (Pipe.step make capacity) actions p = some p') : actions.length + p'.toStop ≤ p.toStop := by
  induction actions generalizing p with
  | nil =>
    obtain rfl := Option.some.inj hrun
    exact (Nat.zero_add _).le
  | cons a actions ih =>
    rw [runSteps_cons] at hrun
    obtain ⟨p₁, hstep, hrun⟩ := Option.bind_eq_some_iff.mp hrun
    obtain ⟨hgone₁, hlt⟩ := toStop_step hgone hstep
    have hrest := ih hgone₁ hrun
    rw [List.length_cons]
    omega

/-- The other end has taken the first items in their order, all of them if it has seen the end, which
it can as long as it reads; the task is never more than the channel and one item ahead of it, and
stops soon after it has left. -/
structure Delivers (make : ι → α) (capacity : ℕ) (items : List ι) (p : Pipe ι α) : Prop where
  taken : p.taken <+: items.map make
  ahead : items.length ≤ p.ahead.length + p.taken.length + capacity + 1
  ended : p.reader = .ended → p.taken = items.map make
  reading : p.reader = .reading → ∃ actions p', .leave ∉ actions ∧
    runSteps (Pipe.step make capacity) actions p = some p' ∧ p'.reader = .ended
  gone : p.reader = .gone → ∀ actions p', runSteps (Pipe.step make capacity) actions p = some p' → actions.length ≤ 2

theorem delivers_of_run (hcapacity : 0 < capacity) {actions : List PipeAction}
    (hrun : runSteps (Pipe.step make capacity) actions (start items) = some p) :
    p.Delivers make capacity items ∧ actions.length ≤ 3 * items.length + 2 := by
  have h := sound_of_run hrun
  have hlength := length_le_of_run hrun
  have hstart : (start items : Pipe ι α).toGo = 3 * items.length + 2 := rfl
  refine ⟨⟨h.taken, ?_, h.taken_of_ended, h.exists_run_ended hcapacity, fun hgone more p' hmore => ?_⟩, by omega⟩
  · have hmade := h.made
    have hroom := p.sender.room_le_one
    omega
  · have hstop := length_le_of_gone hgone hmore
    have htwo := p.toStop_le_two
    omega

end Pipe

end Channels
