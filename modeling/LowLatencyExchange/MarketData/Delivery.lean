import LowLatencyExchange.MarketData.Basic
import Mathlib.Data.List.ReduceOption
import Mathlib.Tactic

/-!
# Delivery of market data

The feed, the bounded queue and a subscriber, with publish calls and pops in any order. The
events that are queued form a chain: the first is a snapshot, and so is every event that does
not directly follow its predecessor. A subscriber that gets all of them is therefore always
synchronized, and one that gets some of them holds the depth of the last event it applied.
-/
namespace LowLatencyExchange.MarketData

open MarketDataFeed

/-! ## One publish call -/

/-- What a publish call can do, with the guard of each path. -/
inductive PublishStep (feed : MarketDataFeed) (queue : MarketDataQueue) (book : OrderBook) :
    MarketDataFeed × MarketDataQueue × Option MarketDataEvent → Prop
  | dropped (feed' : MarketDataFeed)
      (hnext : feed'.nextSequence = feed.nextSequence + 1 ∧ feed.nextSequence < 2 ^ 64 - 1 ∨
        feed'.nextSequence = feed.nextSequence ∧ 2 ^ 64 - 1 ≤ feed.nextSequence)
      (hinterval : feed'.snapshotInterval = feed.snapshotInterval)
      (hupdates : feed'.updatesSinceSnapshot = feed.updatesSinceSnapshot)
      (hpending : feed'.snapshotPending = true)
      (hcount : feed'.publishedEvents = feed.publishedEvents ∧
        feed'.droppedEvents = feed.droppedEvents + 1) :
      PublishStep feed queue book (feed', queue, none)
  | queued (feed' : MarketDataFeed) (queue' : MarketDataQueue) (sequence : FeedSequence)
      (hs : sequence.value = feed.nextSequence)
      (hlt : feed.nextSequence < 2 ^ 64 - 1)
      (hpush : queue'.items = queue.items ++ [makeEvent book feed.nextKind sequence])
      (hnext : feed'.nextSequence = feed.nextSequence + 1)
      (hinterval : feed'.snapshotInterval = feed.snapshotInterval)
      (hkind : feed.snapshotPending = true ∧ feed'.snapshotPending = false ∧
          feed'.updatesSinceSnapshot = 0 ∨
        feed.snapshotPending = false ∧
          feed'.updatesSinceSnapshot = feed.updatesSinceSnapshot + 1 ∧
          (feed'.snapshotPending = false →
            feed'.updatesSinceSnapshot < feed.snapshotInterval))
      (hcount : feed'.publishedEvents = feed.publishedEvents + 1 ∧
        feed'.droppedEvents = feed.droppedEvents) :
      PublishStep feed queue book (feed', queue', some (makeEvent book feed.nextKind sequence))

/-- The counters of the feed after a queued event, for either kind. -/
theorem recordPublished_spec (feed : MarketDataFeed) (kind : MarketDataEventKind) :
    (feed.recordPublished kind).nextSequence = feed.nextSequence ∧
    (feed.recordPublished kind).snapshotInterval = feed.snapshotInterval ∧
    (feed.recordPublished kind).publishedEvents = feed.publishedEvents ∧
    (feed.recordPublished kind).droppedEvents = feed.droppedEvents := by
  cases kind with
  | snapshot => exact ⟨rfl, rfl, rfl, rfl⟩
  | depthUpdate =>
    unfold recordPublished
    dsimp only
    split_ifs <;> exact ⟨rfl, rfl, rfl, rfl⟩

theorem recordPublished_depthUpdate (feed : MarketDataFeed) :
    (feed.recordPublished .depthUpdate).updatesSinceSnapshot = feed.updatesSinceSnapshot + 1 ∧
    ((feed.recordPublished .depthUpdate).snapshotPending = false →
      (feed.recordPublished .depthUpdate).updatesSinceSnapshot < feed.snapshotInterval) := by
  unfold recordPublished
  dsimp only
  split_ifs with h
  · exact ⟨rfl, by simp⟩
  · exact ⟨rfl, fun _ => Nat.lt_of_not_le h⟩

theorem publish_step {feed : MarketDataFeed} (hpos : 0 < feed.nextSequence)
    (queue : MarketDataQueue) (book : OrderBook) :
    PublishStep feed queue book (feed.publish queue book) := by
  unfold publish
  by_cases hlt : feed.nextSequence < 2 ^ 64 - 1
  · have hseq : FeedSequence.fromValue feed.nextSequence =
        some ⟨feed.nextSequence, hpos, by omega⟩ := dif_pos ⟨hpos, by omega⟩
    rw [hseq]
    dsimp only
    rw [if_neg hlt.ne]
    cases hpush : queue.tryPush (makeEvent book feed.nextKind ⟨feed.nextSequence, hpos, by omega⟩) with
    | none =>
      simp only [nextKind] at hpush ⊢
      rw [hpush]
      exact .dropped _ (.inl ⟨rfl, hlt⟩) rfl rfl rfl ⟨rfl, rfl⟩
    | some queue' =>
      have hitems := BoundedFifo.items_of_tryPush hpush
      simp only [nextKind] at hpush ⊢
      rw [hpush]
      dsimp only
      obtain ⟨hnext, hinterval, hpublished, hdropped⟩ := recordPublished_spec
        ({ feed with nextSequence := feed.nextSequence + 1,
                     publishedEvents := feed.publishedEvents + 1 }.recordQueueOccupancy queue')
        feed.nextKind
      refine .queued _ queue' ⟨feed.nextSequence, hpos, by omega⟩ rfl hlt hitems hnext hinterval ?_
        ⟨hpublished, hdropped⟩
      cases hp : feed.snapshotPending with
      | true => exact .inl ⟨rfl, by simp [makeEvent, recordPublished], by simp [makeEvent, recordPublished]⟩
      | false =>
        have hupdate := recordPublished_depthUpdate
          ({ feed with nextSequence := feed.nextSequence + 1,
                       publishedEvents := feed.publishedEvents + 1 }.recordQueueOccupancy queue')
        simp only [makeEvent, hp, Bool.false_eq_true, if_false] at hupdate ⊢
        exact .inr ⟨trivial, hupdate⟩
  · cases hseq : FeedSequence.fromValue feed.nextSequence with
    | none => exact .dropped _ (.inr ⟨rfl, Nat.le_of_not_lt hlt⟩) rfl rfl rfl ⟨rfl, rfl⟩
    | some sequence =>
      have hmax : feed.nextSequence = 2 ^ 64 - 1 := by
        unfold FeedSequence.fromValue at hseq
        split_ifs at hseq with hrange
        omega
      dsimp only
      rw [if_pos hmax]
      exact .dropped _ (.inr ⟨rfl, Nat.le_of_not_lt hlt⟩) rfl rfl rfl ⟨rfl, rfl⟩

/-! ## Runs of feed, queue and subscriber -/

inductive FeedEvent where
  | publish (book : OrderBook)
  | pop

/-- The three components, with a record of what happened: the books published, the event that
each publish call queued (`none` if it dropped it), and the events popped. -/
structure Pipeline where
  feed : MarketDataFeed
  queue : MarketDataQueue
  subscriber : MarketDataBook
  books : List OrderBook
  outcomes : List (Option MarketDataEvent)
  popped : List MarketDataEvent

namespace Pipeline

def start (snapshotInterval : Nat) : Pipeline :=
  ⟨MarketDataFeed.new snapshotInterval, BoundedFifo.empty, MarketDataBook.empty, [], [], []⟩

def step (p : Pipeline) : FeedEvent → Pipeline
  | .publish book =>
    let (feed, queue, outcome) := p.feed.publish p.queue book
    { p with feed := feed, queue := queue
             books := p.books ++ [book], outcomes := p.outcomes ++ [outcome] }
  | .pop =>
    match publishOne p.queue p.subscriber with
    | none => p
    | some (event, queue, subscriber, _) =>
      { p with queue := queue, subscriber := subscriber, popped := p.popped ++ [event] }

def run (snapshotInterval : Nat) (events : List FeedEvent) : Pipeline :=
  Transducer.run (fun p event => (step p event, ())) (start snapshotInterval) events

/-- The events that were queued, in order. -/
def enqueued (p : Pipeline) : List MarketDataEvent := p.outcomes.reduceOption

end Pipeline

/-- A depth list in its slots, with the empty ones behind. -/
def padded (quotes : List LevelQuote) : MarketDataDepth :=
  quotes.map (fun quote => some (toMarketDataLevel quote)) ++
    List.replicate (kMarketDataDepth - quotes.length) none

/-- The sequence number names a publish call, and the slots hold the depth of its book. -/
def Published (books : List OrderBook) (sequence : Option FeedSequence)
    (bids asks : MarketDataDepth) : Prop :=
  ∃ number book, sequence = some number ∧ books[number.value - 1]? = some book ∧
    bids = padded (book.depth kMarketDataDepth).bids ∧
    asks = padded (book.depth kMarketDataDepth).asks

def Carries (books : List OrderBook) (event : MarketDataEvent) : Prop :=
  Published books event.sequence event.bids event.asks

/-- The value of an event's sequence number. -/
def sequenceValue (event : MarketDataEvent) : Nat := event.sequence.elim 0 FeedSequence.value

/-- An event that needs no earlier one, or directly follows the one before. -/
def Follows (event next : MarketDataEvent) : Prop :=
  next.kind = .snapshot ∨ sequenceValue next = sequenceValue event + 1

structure FeedInv (snapshotInterval : Nat) (p : Pipeline) : Prop where
  next : p.feed.nextSequence = min (p.outcomes.length + 1) (2 ^ 64 - 1)
  books : p.books.length = p.outcomes.length
  interval : p.feed.snapshotInterval = max snapshotInterval 1
  carries : ∀ event ∈ p.enqueued, Carries p.books event
  below : ∀ event ∈ p.enqueued, sequenceValue event < p.feed.nextSequence
  increasing : p.enqueued.Pairwise (fun x y => sequenceValue x < sequenceValue y)
  first : ∀ event ∈ p.enqueued.head?, event.kind = .snapshot
  follows : p.enqueued.IsChain Follows
  last : p.feed.snapshotPending = false →
    ∃ event ∈ p.enqueued.getLast?, sequenceValue event + 1 = p.feed.nextSequence
  recovers : p.outcomes.IsChain (fun x y => x = none → ∀ event ∈ y, event.kind = .snapshot)
  pending : p.outcomes.getLast? = some none → p.feed.snapshotPending = true
  window : ∀ front part back, p.enqueued = front ++ part ++ back →
    (∀ event ∈ part, event.kind = .depthUpdate) → part.length ≤ p.feed.snapshotInterval
  updates : ∀ front part, p.enqueued = front ++ part →
    (∀ event ∈ part, event.kind = .depthUpdate) → part.length ≤ p.feed.updatesSinceSnapshot
  room : p.feed.snapshotPending = false →
    p.feed.updatesSinceSnapshot < p.feed.snapshotInterval
  counts : p.feed.publishedEvents + p.feed.droppedEvents = UInt64.ofNat p.outcomes.length
  fifo : p.enqueued = p.popped ++ p.queue.items
  subscriber : p.subscriber = MarketDataBook.applyAll p.popped

theorem enqueued_start (snapshotInterval : Nat) :
    (Pipeline.start snapshotInterval).enqueued = [] := rfl

/-- The queued events after one more publish call. -/
theorem enqueued_concat (p : Pipeline) (feed : MarketDataFeed) (queue : MarketDataQueue)
    (books : List OrderBook) (outcome : Option MarketDataEvent) :
    Pipeline.enqueued { p with feed := feed, queue := queue, books := books,
                               outcomes := p.outcomes ++ [outcome] } =
      p.enqueued ++ outcome.toList := by
  simp only [Pipeline.enqueued, List.reduceOption_append, List.reduceOption_singleton]

theorem feedInv_start (snapshotInterval : Nat) :
    FeedInv snapshotInterval (Pipeline.start snapshotInterval) where
  next := rfl
  books := rfl
  interval := rfl
  carries := by simp [enqueued_start]
  below := by simp [enqueued_start]
  increasing := List.Pairwise.nil
  first := by simp [enqueued_start]
  follows := List.IsChain.nil
  last := by simp [Pipeline.start, MarketDataFeed.new]
  recovers := List.IsChain.nil
  pending := by simp [Pipeline.start]
  window front part back h := by
    have := congrArg List.length h
    simp [enqueued_start] at this
    omega
  updates front part h := by
    have := congrArg List.length h
    simp [enqueued_start] at this
    omega
  room := by simp [Pipeline.start, MarketDataFeed.new]
  counts := rfl
  fifo := rfl
  subscriber := rfl

/-- The slots that `make_event` fills are the padded depth. -/
theorem makeEvent_carries {books : List OrderBook} (book : OrderBook)
    (kind : MarketDataEventKind) {sequence : FeedSequence}
    (h : sequence.value = books.length + 1) :
    Carries (books ++ [book]) (makeEvent book kind sequence) := by
  have hlevels : ∀ ls : Levels, (OrderBook.copyLevels ls kMarketDataDepth).map
      (Option.map toMarketDataLevel) = padded ((ls.take kMarketDataDepth).map OrderBook.quote) := by
    intro ls
    have hpad : kMarketDataDepth - (ls.take kMarketDataDepth).length =
        kMarketDataDepth - ls.length := by
      rw [List.length_take]
      omega
    simp only [OrderBook.copyLevels, padded, List.map_append, List.map_map, List.map_replicate,
      List.length_map, hpad]
    rfl
  refine ⟨sequence, book, rfl, ?_, hlevels book.bids, hlevels book.asks⟩
  rw [h, Nat.add_sub_cancel, List.getElem?_concat_length]

theorem Carries.mono {books : List OrderBook} {event : MarketDataEvent} (h : Carries books event)
    (book : OrderBook) : Carries (books ++ [book]) event := by
  obtain ⟨sequence, b, hs, hb, hbids, hasks⟩ := h
  refine ⟨sequence, b, hs, ?_, hbids, hasks⟩
  rw [List.getElem?_append_left (List.getElem?_eq_some_iff.mp hb).1]
  exact hb

/-- A dropped event leaves the queue, and makes the next event a snapshot. -/
theorem feedInv_dropped {n : Nat} {p : Pipeline} (hp : FeedInv n p) (book : OrderBook)
    {feed' : MarketDataFeed}
    (hnext : feed'.nextSequence = p.feed.nextSequence + 1 ∧ p.feed.nextSequence < 2 ^ 64 - 1 ∨
      feed'.nextSequence = p.feed.nextSequence ∧ 2 ^ 64 - 1 ≤ p.feed.nextSequence)
    (hinterval : feed'.snapshotInterval = p.feed.snapshotInterval)
    (hupdates : feed'.updatesSinceSnapshot = p.feed.updatesSinceSnapshot)
    (hpending : feed'.snapshotPending = true)
    (hcount : feed'.publishedEvents = p.feed.publishedEvents ∧
      feed'.droppedEvents = p.feed.droppedEvents + 1) :
    FeedInv n { p with feed := feed', books := p.books ++ [book],
                       outcomes := p.outcomes ++ [none] } := by
  have hnot : feed'.snapshotPending ≠ false := by simp [hpending]
  have hle : p.feed.nextSequence ≤ feed'.nextSequence := by omega
  have hnextp := hp.next
  refine ⟨?_, ?_, hinterval.trans hp.interval, ?_, ?_, ?_, ?_, ?_, fun h => absurd h hnot, ?_,
    fun _ => hpending, ?_, ?_, fun h => absurd h hnot, ?_, ?_, hp.subscriber⟩ <;>
    simp only [enqueued_concat, Option.toList_none, List.append_nil]
  · rw [List.length_append, List.length_singleton]
    omega
  · rw [List.length_append, List.length_append, hp.books]
    rfl
  · exact fun event h => (hp.carries event h).mono book
  · exact fun event h => (hp.below event h).trans_le hle
  · exact hp.increasing
  · exact hp.first
  · exact hp.follows
  · exact List.isChain_append.mpr ⟨hp.recovers, List.isChain_singleton none, by simp⟩
  · intro front part back h hall
    rw [hinterval]
    exact hp.window front part back h hall
  · intro front part h hall
    rw [hupdates]
    exact hp.updates front part h hall
  · rw [hcount.1, hcount.2, List.length_append, ← UInt64.add_assoc, hp.counts,
      List.length_singleton, UInt64.ofNat_add]
    rfl
  · exact hp.fifo

/-- A run of updates at the end of the queued events is one longer after an update, and
empty after a snapshot. -/
theorem updates_concat {events : List MarketDataEvent} {event : MarketDataEvent} {k m : Nat}
    (h : ∀ front part, events = front ++ part →
      (∀ e ∈ part, e.kind = .depthUpdate) → part.length ≤ k)
    (hm : event.kind = .depthUpdate → m = k + 1) :
    ∀ front part, events ++ [event] = front ++ part →
      (∀ e ∈ part, e.kind = .depthUpdate) → part.length ≤ m := by
  intro front part heq hall
  obtain rfl | ⟨part, last, rfl⟩ := part.eq_nil_or_concat
  · exact Nat.zero_le _
  · rw [List.concat_eq_append, ← List.append_assoc] at heq
    obtain ⟨hevents, hlast⟩ := List.append_inj' heq rfl
    have hkind : event.kind = .depthUpdate := by
      rw [List.singleton_inj.mp hlast]
      exact hall last (by simp)
    have := h front part hevents fun e he => hall e (by simp [he])
    simp only [List.concat_eq_append, List.length_append, List.length_singleton]
    have := hm hkind
    omega

/-- A run of updates inside the queued events, when those at the end are short enough. -/
theorem window_concat {events : List MarketDataEvent} {event : MarketDataEvent} {k : Nat}
    (h : ∀ front part back, events = front ++ part ++ back →
      (∀ e ∈ part, e.kind = .depthUpdate) → part.length ≤ k)
    (hlast : ∀ front part, events ++ [event] = front ++ part →
      (∀ e ∈ part, e.kind = .depthUpdate) → part.length ≤ k) :
    ∀ front part back, events ++ [event] = front ++ part ++ back →
      (∀ e ∈ part, e.kind = .depthUpdate) → part.length ≤ k := by
  intro front part back heq hall
  obtain rfl | ⟨back, last, rfl⟩ := back.eq_nil_or_concat
  · rw [List.append_nil] at heq
    exact hlast front part heq hall
  · rw [List.concat_eq_append, ← List.append_assoc] at heq
    exact h front part back (List.append_inj' heq rfl).1 hall

/-! The event that a publish call queues is a snapshot if one is pending, and has the feed's next
number. -/

theorem nextKind_of_pending {feed : MarketDataFeed} (h : feed.snapshotPending = true) :
    feed.nextKind = .snapshot := by rw [nextKind, if_pos h]

theorem pending_of_nextKind {feed : MarketDataFeed} (h : feed.nextKind = .depthUpdate) :
    feed.snapshotPending = false := by
  cases hpend : feed.snapshotPending with
  | true => simp [nextKind_of_pending hpend] at h
  | false => rfl

theorem FeedInv.makeEvent_carries {n : Nat} {p : Pipeline} (hp : FeedInv n p) (book : OrderBook)
    {sequence : FeedSequence} (hs : sequence.value = p.feed.nextSequence)
    (hlt : p.feed.nextSequence < 2 ^ 64 - 1) (kind : MarketDataEventKind) :
    Carries (p.books ++ [book]) (makeEvent book kind sequence) := by
  refine MarketData.makeEvent_carries book kind ?_
  rw [hs, hp.books]
  have := hp.next
  omega

theorem FeedInv.carries_concat {n : Nat} {p : Pipeline} (hp : FeedInv n p) {book : OrderBook}
    {event : MarketDataEvent} (hcarry : Carries (p.books ++ [book]) event) :
    ∀ e ∈ p.enqueued ++ [event], Carries (p.books ++ [book]) e := by
  intro e he
  obtain he | he := List.mem_append.mp he
  · exact (hp.carries e he).mono book
  · exact List.mem_singleton.mp he ▸ hcarry

theorem FeedInv.below_concat {n : Nat} {p : Pipeline} (hp : FeedInv n p) {event : MarketDataEvent}
    (hseq : sequenceValue event = p.feed.nextSequence) :
    ∀ e ∈ p.enqueued ++ [event], sequenceValue e < p.feed.nextSequence + 1 := by
  intro e he
  obtain he | he := List.mem_append.mp he
  · exact Nat.lt_succ_of_lt (hp.below e he)
  · rw [List.mem_singleton.mp he, hseq]
    exact Nat.lt_succ_self _

theorem FeedInv.increasing_concat {n : Nat} {p : Pipeline} (hp : FeedInv n p)
    {event : MarketDataEvent} (hseq : sequenceValue event = p.feed.nextSequence) :
    (p.enqueued ++ [event]).Pairwise (fun x y => sequenceValue x < sequenceValue y) := by
  refine List.pairwise_append.mpr ⟨hp.increasing, List.pairwise_singleton _ _, ?_⟩
  intro e he e' he'
  rw [List.mem_singleton.mp he', hseq]
  exact hp.below e he

theorem FeedInv.first_concat {n : Nat} {p : Pipeline} (hp : FeedInv n p) {event : MarketDataEvent}
    (hsnapshot : p.feed.snapshotPending = true → event.kind = .snapshot) :
    ∀ e ∈ (p.enqueued ++ [event]).head?, e.kind = .snapshot := by
  intro e he
  cases hempty : p.enqueued with
  | nil =>
    rw [hempty] at he
    obtain rfl : event = e := by simpa using he
    cases hpend : p.feed.snapshotPending with
    | true => exact hsnapshot hpend
    | false =>
      obtain ⟨last, hlast, -⟩ := hp.last hpend
      simp [hempty] at hlast
  | cons e' rest =>
    refine hp.first e ?_
    rw [hempty] at he ⊢
    exact he

theorem FeedInv.follows_concat {n : Nat} {p : Pipeline} (hp : FeedInv n p)
    {event : MarketDataEvent} (hseq : sequenceValue event = p.feed.nextSequence)
    (hsnapshot : p.feed.snapshotPending = true → event.kind = .snapshot) :
    (p.enqueued ++ [event]).IsChain Follows := by
  refine List.isChain_append.mpr ⟨hp.follows, List.isChain_singleton event, ?_⟩
  intro x hx y hy
  obtain rfl : event = y := by simpa using hy
  cases hpend : p.feed.snapshotPending with
  | true => exact .inl (hsnapshot hpend)
  | false =>
    obtain ⟨last, hlast, hnum⟩ := hp.last hpend
    rw [Option.mem_def] at hx hlast
    obtain rfl : x = last := Option.some.inj (hx.symm.trans hlast)
    exact .inr (hseq.trans hnum.symm)

theorem FeedInv.recovers_concat {n : Nat} {p : Pipeline} (hp : FeedInv n p)
    {event : MarketDataEvent}
    (hsnapshot : p.feed.snapshotPending = true → event.kind = .snapshot) :
    (p.outcomes ++ [some event]).IsChain
      (fun x y => x = none → ∀ e ∈ y, e.kind = .snapshot) := by
  refine List.isChain_append.mpr ⟨hp.recovers, List.isChain_singleton _, ?_⟩
  intro x hx y hy hnone e he
  obtain rfl : some event = y := by simpa using hy
  obtain rfl : event = e := by simpa using he
  exact hsnapshot (hp.pending (by rw [← hnone]; exact hx))

/-- A queued event carries the new book, and is a snapshot unless the one before it in the
feed's order was queued too. -/
theorem feedInv_queued {n : Nat} {p : Pipeline} (hp : FeedInv n p) (book : OrderBook)
    {feed' : MarketDataFeed} {queue' : MarketDataQueue} {sequence : FeedSequence}
    (hs : sequence.value = p.feed.nextSequence)
    (hlt : p.feed.nextSequence < 2 ^ 64 - 1)
    (hpush : queue'.items = p.queue.items ++ [makeEvent book p.feed.nextKind sequence])
    (hnext : feed'.nextSequence = p.feed.nextSequence + 1)
    (hinterval : feed'.snapshotInterval = p.feed.snapshotInterval)
    (hkind : p.feed.snapshotPending = true ∧ feed'.snapshotPending = false ∧
        feed'.updatesSinceSnapshot = 0 ∨
      p.feed.snapshotPending = false ∧
        feed'.updatesSinceSnapshot = p.feed.updatesSinceSnapshot + 1 ∧
        (feed'.snapshotPending = false →
          feed'.updatesSinceSnapshot < p.feed.snapshotInterval))
    (hcount : feed'.publishedEvents = p.feed.publishedEvents + 1 ∧
      feed'.droppedEvents = p.feed.droppedEvents) :
    FeedInv n { p with feed := feed', queue := queue', books := p.books ++ [book],
                       outcomes := p.outcomes ++
                         [some (makeEvent book p.feed.nextKind sequence)] } := by
  obtain ⟨event, hevent⟩ : ∃ event, makeEvent book p.feed.nextKind sequence = event := ⟨_, rfl⟩
  have hkindOf : event.kind = p.feed.nextKind := hevent ▸ rfl
  have hseq : sequenceValue event = p.feed.nextSequence := hevent ▸ hs
  have hcarry : Carries (p.books ++ [book]) event := hevent ▸ hp.makeEvent_carries book hs hlt _
  have hsnapshot : p.feed.snapshotPending = true → event.kind = .snapshot :=
    fun h => hkindOf.trans (nextKind_of_pending h)
  have hcap : feed'.updatesSinceSnapshot ≤ p.feed.snapshotInterval := by
    obtain ⟨-, -, h⟩ | ⟨h, hu, -⟩ := hkind
    · omega
    · have := hp.room h
      omega
  have hcounted : event.kind = .depthUpdate →
      feed'.updatesSinceSnapshot = p.feed.updatesSinceSnapshot + 1 := by
    intro h
    obtain ⟨hpend, -⟩ | ⟨-, hu, -⟩ := hkind
    · simp [pending_of_nextKind (hkindOf.symm.trans h)] at hpend
    · exact hu
  have hupdates := updates_concat hp.updates hcounted
  have hnextp := hp.next
  rw [hevent] at hpush ⊢
  refine ⟨?_, ?_, hinterval.trans hp.interval, ?_, ?_, ?_, ?_, ?_, ?_, ?_, by simp, ?_, ?_, ?_, ?_,
    ?_, hp.subscriber⟩ <;>
    simp only [enqueued_concat, Option.toList_some]
  · rw [List.length_append, List.length_singleton]
    omega
  · rw [List.length_append, List.length_append, hp.books]
    rfl
  · exact hp.carries_concat hcarry
  · rw [hnext]
    exact hp.below_concat hseq
  · exact hp.increasing_concat hseq
  · exact hp.first_concat hsnapshot
  · exact hp.follows_concat hseq hsnapshot
  · exact fun _ => ⟨event, by simp, by omega⟩
  · exact hp.recovers_concat hsnapshot
  · rw [hinterval]
    exact window_concat hp.window fun front part h hall => (hupdates front part h hall).trans hcap
  · exact hupdates
  · intro h
    have hpos : 0 < p.feed.snapshotInterval := by
      rw [hp.interval]
      omega
    rw [hinterval]
    obtain ⟨-, -, hu⟩ | ⟨-, -, hu⟩ := hkind
    · omega
    · exact hu h
  · rw [hcount.1, hcount.2, List.length_append, List.length_singleton, UInt64.ofNat_add,
      ← hp.counts, UInt64.add_assoc, UInt64.add_comm 1, ← UInt64.add_assoc]
    rfl
  · rw [hp.fifo, hpush, List.append_assoc]

theorem feedInv_step {n : Nat} {p : Pipeline} (hp : FeedInv n p) (event : FeedEvent) :
    FeedInv n (p.step event) := by
  cases event with
  | publish book =>
    have hpos : 0 < p.feed.nextSequence := by
      have := hp.next
      omega
    have hstep := publish_step hpos p.queue book
    unfold Pipeline.step
    dsimp only
    generalize p.feed.publish p.queue book = out at hstep ⊢
    cases hstep with
    | dropped feed' hnext hinterval hupdates hpending hcount =>
      exact feedInv_dropped hp book hnext hinterval hupdates hpending hcount
    | queued feed' queue' sequence hs hlt hpush hnext hinterval hkind hcount =>
      exact feedInv_queued hp book hs hlt hpush hnext hinterval hkind hcount
  | pop =>
    unfold Pipeline.step publishOne
    cases hpop : p.queue.tryPop with
    | none => exact hp
    | some out =>
      obtain ⟨event, queue⟩ := out
      have hitems := BoundedFifo.items_of_tryPop hpop
      dsimp only [Option.map_some]
      refine { hp with fifo := ?_, subscriber := ?_ }
      · rw [List.append_assoc, List.singleton_append, ← hitems]
        exact hp.fifo
      · rw [MarketDataBook.applyAll, Transducer.run_concat, hp.subscriber]
        rfl

theorem feedInv_run (n : Nat) (events : List FeedEvent) : FeedInv n (Pipeline.run n events) :=
  Transducer.run_invariant (FeedInv n) (fun _ event hp => feedInv_step hp event)
    (feedInv_start n) events

/-- The books of the publish calls. -/
def publishedBooks (events : List FeedEvent) : List OrderBook :=
  events.filterMap fun
    | .publish book => some book
    | .pop => none

theorem run_books (n : Nat) (events : List FeedEvent) :
    (Pipeline.run n events).books = publishedBooks events := by
  induction events using List.reverseRecOn with
  | nil => rfl
  | append_singleton events event ih =>
    rw [Pipeline.run, Transducer.run_concat, publishedBooks, List.filterMap_append]
    change ((Pipeline.run n events).step event).books = publishedBooks events ++ _
    rw [← ih]
    cases event with
    | publish book => rfl
    | pop =>
      unfold Pipeline.step
      dsimp only
      cases publishOne (Pipeline.run n events).queue (Pipeline.run n events).subscriber with
      | none => simp
      | some out => simp

/-! ## Subscribers -/

/-- The state of a subscriber right after it applied an event. -/
def bookAt (event : MarketDataEvent) : MarketDataBook :=
  ⟨event.bids, event.asks, event.sequence, true⟩

theorem apply_snapshot (b : MarketDataBook) {event : MarketDataEvent}
    (hs : event.sequence.isSome) (hk : event.kind = .snapshot) :
    b.apply event = (bookAt event, true) := by
  obtain ⟨sequence, hs⟩ := Option.isSome_iff_exists.mp hs
  simp [MarketDataBook.apply, hs, hk, bookAt]

/-- An update is applied if it directly follows the event that was applied last. -/
theorem apply_bookAt {event next : MarketDataEvent} (hs : event.sequence.isSome)
    (hs' : next.sequence.isSome) (h : Follows event next) :
    (bookAt event).apply next = (bookAt next, true) := by
  cases hk : next.kind with
  | snapshot => exact apply_snapshot _ hs' hk
  | depthUpdate =>
    obtain ⟨last, hlast⟩ := Option.isSome_iff_exists.mp hs
    obtain ⟨sequence, hsequence⟩ := Option.isSome_iff_exists.mp hs'
    have hnum : sequence.value = last.value + 1 := by
      obtain h | h := h
      · simp [hk] at h
      · simpa [sequenceValue, hlast, hsequence] using h
    have hnext : isNextSequence last sequence = true := by
      have := sequence.lt
      simp only [isNextSequence, Bool.and_eq_true, decide_eq_true_eq]
      omega
    simp [MarketDataBook.apply, bookAt, hlast, hsequence, hk, hnext]

/-- A subscriber that gets a chain of events from its start applies each of them. -/
theorem apply_chain {events : List MarketDataEvent}
    (hs : ∀ event ∈ events, event.sequence.isSome)
    (hfirst : ∀ event ∈ events.head?, event.kind = .snapshot)
    (hchain : events.IsChain Follows) {before : List MarketDataEvent} {event : MarketDataEvent}
    (h : before ++ [event] <+: events) :
    (MarketDataBook.applyAll before).apply event = (bookAt event, true) := by
  induction before using List.reverseRecOn generalizing event with
  | nil =>
    obtain ⟨rest, rfl⟩ := h
    exact apply_snapshot _ (hs event (by simp)) (hfirst event (by simp))
  | append_singleton before last ih =>
    have hlast := ih ((List.prefix_append (before ++ [last]) [event]).trans h)
    have happ : MarketDataBook.applyAll (before ++ [last]) = bookAt last := by
      rw [MarketDataBook.applyAll, Transducer.run_concat]
      exact congrArg Prod.fst hlast
    obtain ⟨rest, rfl⟩ := h
    have hfollows : Follows last event := by
      simp only [List.append_assoc, List.singleton_append] at hchain
      exact (List.isChain_append_cons_cons.mp hchain).2.1
    rw [happ]
    exact apply_bookAt (hs last (by simp)) (hs event (by simp)) hfollows

/-- A synchronized subscriber holds the depth published under its last sequence number,
whichever events it got. -/
theorem synchronized_published {books : List OrderBook} {received : List MarketDataEvent}
    (h : ∀ event ∈ received, Carries books event) :
    (MarketDataBook.applyAll received).synchronized = true →
      Published books (MarketDataBook.applyAll received).lastSequence
        (MarketDataBook.applyAll received).bids (MarketDataBook.applyAll received).asks := by
  obtain rfl | ⟨received, event, rfl⟩ := received.eq_nil_or_concat
  · exact fun h => by cases h
  · rw [List.concat_eq_append] at h ⊢
    have hevent : Carries books event := h event (by simp)
    rw [MarketDataBook.applyAll, Transducer.run_concat]
    have hpublished := hevent
    obtain ⟨sequence, -, hsequence, -⟩ := hevent
    unfold Carries at hpublished
    unfold MarketDataBook.apply
    rw [hsequence] at hpublished ⊢
    cases event.kind with
    | snapshot => exact fun _ => hpublished
    | depthUpdate =>
      dsimp only
      split_ifs
      · exact fun _ => hpublished
      · exact fun h => by cases h

/-! ## Whole runs -/

/-- In every run, a subscriber that gets all popped events applies each of them and then holds
the depth of the book published under the event's sequence number, in increasing order. After
a drop the feed recovers with a snapshot, and snapshots come at least every `max n 1 + 1`
events. A subscriber that gets only some of the queued events holds, whenever it is
synchronized, the depth of the book published under its last sequence number. -/
theorem feed_delivers (n : Nat) (events : List FeedEvent) :
    ((Pipeline.run n events).subscriber =
        MarketDataBook.applyAll (Pipeline.run n events).popped ∧
      ∀ before event, before ++ [event] <+: (Pipeline.run n events).popped →
        ((MarketDataBook.applyAll before).apply event).2 = true) ∧
    ((∀ before event, before ++ [event] <+: (Pipeline.run n events).popped →
        ∃ sequence book, event.sequence = some sequence ∧
          (publishedBooks events)[sequence.value - 1]? = some book ∧
          MarketDataBook.applyAll (before ++ [event]) =
            ⟨padded (book.depth kMarketDataDepth).bids, padded (book.depth kMarketDataDepth).asks,
              some sequence, true⟩) ∧
      (Pipeline.run n events).popped.Pairwise
        (fun event later => sequenceValue event < sequenceValue later)) ∧
    ((∀ before after m event, (Pipeline.run n events).outcomes =
        before ++ none :: (List.replicate m none ++ some event :: after) →
          event.kind = .snapshot) ∧
      (∀ before part after, (Pipeline.run n events).enqueued = before ++ part ++ after →
        part.length = max n 1 + 1 → ∃ event ∈ part, event.kind = .snapshot) ∧
      (Pipeline.run n events).feed.publishedEvents + (Pipeline.run n events).feed.droppedEvents =
        UInt64.ofNat (publishedBooks events).length) ∧
    ∀ received, received.Sublist (Pipeline.run n events).enqueued →
      (MarketDataBook.applyAll received).synchronized = true →
        Published (publishedBooks events) (MarketDataBook.applyAll received).lastSequence
          (MarketDataBook.applyAll received).bids (MarketDataBook.applyAll received).asks := by
  obtain ⟨p, hrun⟩ : ∃ p, Pipeline.run n events = p := ⟨_, rfl⟩
  have hp : FeedInv n p := hrun ▸ feedInv_run n events
  have hbooks : p.books = publishedBooks events := hrun ▸ run_books n events
  rw [hrun, ← hbooks]
  have hpopped : p.popped <+: p.enqueued := ⟨p.queue.items, hp.fifo.symm⟩
  have hsome : ∀ event ∈ p.enqueued, event.sequence.isSome := by
    intro event hevent
    obtain ⟨sequence, -, hsequence, -⟩ := hp.carries event hevent
    simp [hsequence]
  have happly : ∀ before event, before ++ [event] <+: p.popped →
      (MarketDataBook.applyAll before).apply event = (bookAt event, true) :=
    fun before event h => apply_chain hsome hp.first hp.follows (h.trans hpopped)
  refine ⟨⟨hp.subscriber, fun before event h => by rw [happly before event h]⟩,
    ⟨?_, hp.increasing.sublist hpopped.sublist⟩, ⟨?_, ?_, ?_⟩, ?_⟩
  · intro before event h
    obtain ⟨sequence, book, hsequence, hbook, hbids, hasks⟩ :=
      hp.carries event ((h.trans hpopped).subset (by simp))
    refine ⟨sequence, book, hsequence, hbook, ?_⟩
    rw [MarketDataBook.applyAll, Transducer.run_concat]
    refine (congrArg Prod.fst (happly before event h)).trans ?_
    rw [bookAt, hsequence, hbids, hasks]
  · intro before after m event h
    have hlast : ∃ rest, p.outcomes = rest ++ none :: some event :: after := by
      cases m with
      | zero => exact ⟨before, h⟩
      | succ m =>
        refine ⟨before ++ none :: List.replicate m none, ?_⟩
        rw [h, List.replicate_succ']
        simp
    obtain ⟨rest, hlast⟩ := hlast
    have hchain := hp.recovers
    rw [hlast] at hchain
    exact (List.isChain_append_cons_cons.mp hchain).2.1 rfl event rfl
  · intro before part after h hlength
    by_contra hnone
    have hle := hp.window before part after h fun event hevent => by
      cases hk : event.kind with
      | snapshot => exact absurd ⟨event, hevent, hk⟩ hnone
      | depthUpdate => rfl
    rw [hp.interval] at hle
    omega
  · rw [hp.books]
    exact hp.counts
  · intro received hreceived
    exact synchronized_published fun event hevent => hp.carries event (hreceived.subset hevent)

end LowLatencyExchange.MarketData
