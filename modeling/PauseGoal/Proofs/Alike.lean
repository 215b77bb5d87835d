import PauseGoal.Proofs.Outcome

/-!
# Two computations side by side

Two computations end alike if both end in values that are related or both in the same fault, and if
they append the same to the journal. What was written before must not matter for that; only the
level of the log may, since it decides which entries are kept and whether tables are written at all.

* `Checked.Alike`: the same for computations that write nothing;
* `Logged.Appends`: a computation that logs is alike to itself;
* `Act.left`: what a computation returns, with the journal that it leaves;
* `Act.Alike`: two computations are alike on all journals whose logs have the same level;
* `Act.Tells`: a single computation ends in a known value and logs about known topics.

Each relation has a rule for `pure` and one for `>>=`.
-/

namespace PauseGoal

variable {α β γ δ ε : Type}

/-! ## Computations that write nothing -/

/-- Both end in values that are related, or both in the same fault. -/
def Checked.Alike (R : β → γ → Prop) : Checked α β → Checked α γ → Prop
  | .ok b, .ok c => R b c
  | .error fault, .error fault' => fault = fault'
  | _, _ => False

namespace Checked

variable {R : β → γ → Prop} {S : δ → ε → Prop}

theorem alike_pure {b : β} {c : γ} (h : R b c) :
    Alike R (pure b : Checked α β) (pure c) := h

theorem alike_refl (x : Checked α β) : Alike Eq x x := by
  cases x with
  | ok b => exact rfl
  | error fault => exact rfl

theorem Alike.bind {x : Checked α β} {y : Checked α γ} {f : β → Checked α δ} {g : γ → Checked α ε}
    (hx : Alike R x y) (hf : ∀ b c, R b c → Alike S (f b) (g c)) : Alike S (x >>= f) (y >>= g) := by
  cases x with
  | ok b =>
    cases y with
    | ok c => exact hf b c hx
    | error fault => exact hx.elim
  | error fault =>
    cases y with
    | ok c => exact hx.elim
    | error fault' => exact hx

/-- A first part that is the same on both sides. -/
theorem alike_bind (x : Checked α β) {f : β → Checked α δ} {g : β → Checked α ε}
    (hf : ∀ b, Alike S (f b) (g b)) : Alike S (x >>= f) (x >>= g) :=
  (alike_refl x).bind fun b _ h => h ▸ hf b

theorem Alike.mono {R' : β → γ → Prop} {x : Checked α β} {y : Checked α γ} (hx : Alike R x y)
    (h : ∀ b c, R b c → R' b c) : Alike R' x y := by
  cases x with
  | ok b =>
    cases y with
    | ok c => exact h b c hx
    | error fault => exact hx
  | error fault =>
    cases y with
    | ok c => exact hx
    | error fault' => exact hx

end Checked

/-! ## Computations that write to the log -/

/-- The log with more entries. -/
def Log.extend (log : Log α) (entries : List (Entry α)) : Log α :=
  { log with entries := log.entries ++ entries }

theorem Log.extend_nil (log : Log α) : log.extend [] = log := by
  unfold extend
  rw [List.append_nil]

theorem Log.extend_extend (log : Log α) (entries more : List (Entry α)) :
    (log.extend entries).extend more = log.extend (entries ++ more) := by
  unfold extend
  rw [List.append_assoc]

/-- An entry is kept or not, depending on the level. -/
theorem Log.write_eq_extend (log : Log α) (entry : Entry α) :
    log.write entry = log.extend (if log.keeps entry.severity then [entry] else []) := by
  unfold write
  split
  · rfl
  · rw [extend_nil]

theorem Log.keeps_congr {log log' : Log α} (h : log'.level = log.level) (severity : Severity) :
    log'.keeps severity = log.keeps severity := by
  unfold keeps
  rw [h]

namespace Logged

/-- What it ends in and what it appends depends on the level of the log alone. -/
def Appends (x : Logged α β) : Prop :=
  ∀ level, ∃ result entries, ∀ log : Log α, log.level = level →
    x.run.run log = (result, log.extend entries)

theorem appends_ofChecked (x : Checked α β) : (ofChecked x).Appends :=
  fun _ => ⟨x, [], fun log _ => by rw [log.extend_nil]; rfl⟩

theorem appends_pure (b : β) : (pure b : Logged α β).Appends := appends_ofChecked (.ok b)

theorem appends_write (severity : Severity) (topic : Topic) (pieces : List (Piece α)) :
    (write severity topic pieces).Appends := by
  intro level
  let blank : Log α := { level := level }
  refine ⟨.ok (), if blank.keeps severity then [⟨severity, topic, pieces⟩] else [],
    fun log hlevel => ?_⟩
  have hkeeps : log.keeps severity = blank.keeps severity := Log.keeps_congr hlevel severity
  show (Except.ok (), log.write ⟨severity, topic, pieces⟩) = _
  rw [log.write_eq_extend, hkeeps]

theorem appends_keeps (severity : Severity) : (keeps severity : Logged α Bool).Appends := by
  intro level
  let blank : Log α := { level := level }
  refine ⟨.ok (blank.keeps severity), [], fun log hlevel => ?_⟩
  have hkeeps : log.keeps severity = blank.keeps severity := Log.keeps_congr hlevel severity
  show (Except.ok (log.keeps severity), log) = _
  rw [log.extend_nil, hkeeps]

theorem Appends.bind {x : Logged α β} {f : β → Logged α γ} (hx : x.Appends)
    (hf : ∀ b, (f b).Appends) : (x >>= f).Appends := by
  intro level
  obtain ⟨result, entries, hresult⟩ := hx level
  cases result with
  | error fault =>
    refine ⟨.error fault, entries, fun log hlevel => ?_⟩
    rw [run_bind, hresult log hlevel]
  | ok b =>
    obtain ⟨result', more, hrest⟩ := hf b level
    refine ⟨result', entries ++ more, fun log hlevel => ?_⟩
    rw [run_bind, hresult log hlevel, ← log.extend_extend]
    exact hrest _ hlevel

end Logged

/-! ## Computations that write to the journal -/

/-- The journal with more entries and events. -/
def Journal.extend (journal : Journal α) (entries : List (Entry α)) (events : List (Event α)) :
    Journal α :=
  { log := journal.log.extend entries, events := journal.events ++ events }

theorem Journal.extend_nil (journal : Journal α) : journal.extend [] [] = journal := by
  unfold extend
  rw [Log.extend_nil, List.append_nil]

theorem Journal.extend_extend (journal : Journal α) (entries entries' : List (Entry α))
    (events events' : List (Event α)) :
    (journal.extend entries events).extend entries' events' =
      journal.extend (entries ++ entries') (events ++ events') := by
  unfold extend
  rw [Log.extend_extend, List.append_assoc]

theorem Journal.pauses_extend (journal : Journal α) (entries : List (Entry α))
    (events : List (Event α)) :
    (journal.extend entries events).pauses =
      journal.pauses ++ events.filterMap Event.pauseKind? :=
  List.filterMap_append

namespace Act

variable {R : β → γ → Prop} {S : δ → ε → Prop}

/-- What a computation returns, with the journal that it leaves. -/
def left (x : Act α β) (journal : Journal α) : Checked α (β × Journal α) :=
  (x.outcome journal).1.map fun b => (b, (x.outcome journal).2)

theorem left_of_ok {x : Act α β} {journal k : Journal α} {b : β}
    (h : x.outcome journal = (.ok b, k)) : x.left journal = .ok (b, k) := by
  rw [left, h]
  rfl

theorem left_of_error {x : Act α β} {journal k : Journal α} {fault : Fault α}
    (h : x.outcome journal = (.error fault, k)) : x.left journal = .error fault := by
  rw [left, h]
  rfl

theorem left_bind_of_ok {x : Act α β} {f : β → Act α γ} {journal k : Journal α} {b : β}
    (h : x.outcome journal = (.ok b, k)) : (x >>= f).left journal = (f b).left k := by
  rw [left, outcome_bind, h]
  rfl

theorem left_bind_of_error {x : Act α β} {f : β → Act α γ} {journal k : Journal α}
    {fault : Fault α} (h : x.outcome journal = (.error fault, k)) :
    (x >>= f).left journal = .error fault := by
  rw [left, outcome_bind, h]
  rfl

/-- Both end alike and append the same to journals whose logs have the same level. -/
def Alike (R : β → γ → Prop) (x : Act α β) (y : Act α γ) : Prop :=
  ∀ level, ∃ result result' entries events, Checked.Alike R result result' ∧
    ∀ journal : Journal α, journal.log.level = level →
      x.outcome journal = (result, journal.extend entries events) ∧
        y.outcome journal = (result', journal.extend entries events)

theorem alike_ofChecked {x : Checked α β} {y : Checked α γ} (h : Checked.Alike R x y) :
    (ofChecked x).Alike R (ofChecked y) := by
  refine fun _ => ⟨x, y, [], [], h, fun journal _ => ?_⟩
  rw [journal.extend_nil]
  exact ⟨rfl, rfl⟩

theorem alike_pure {b : β} {c : γ} (h : R b c) : (pure b : Act α β).Alike R (pure c) :=
  alike_ofChecked (Checked.alike_pure h)

theorem alike_ofLogged {x : Logged α β} (h : x.Appends) : (ofLogged x).Alike Eq (ofLogged x) := by
  intro level
  obtain ⟨result, entries, hresult⟩ := h level
  refine ⟨result, result, entries, [], Checked.alike_refl result, fun journal hlevel => ?_⟩
  have houtcome : (ofLogged x).outcome journal = (result, journal.extend entries []) := by
    rw [outcome_ofLogged, hresult _ hlevel, Journal.extend, List.append_nil]
  exact ⟨houtcome, houtcome⟩

theorem alike_write (severity : Severity) (topic : Topic) (pieces : List (Piece α)) :
    (write severity topic pieces).Alike Eq (write severity topic pieces) :=
  alike_ofLogged (Logged.appends_write severity topic pieces)

theorem alike_report (event : Event α) : (report event).Alike Eq (report event) := by
  refine fun _ => ⟨.ok (), .ok (), [], [event], rfl, fun journal _ => ?_⟩
  have houtcome : (report event).outcome journal = (.ok (), journal.extend [] [event]) := by
    rw [Journal.extend, Log.extend_nil]
    rfl
  exact ⟨houtcome, houtcome⟩

theorem Alike.bind {x : Act α β} {y : Act α γ} {f : β → Act α δ} {g : γ → Act α ε}
    (hx : x.Alike R y) (hf : ∀ b c, R b c → (f b).Alike S (g c)) :
    (x >>= f).Alike S (y >>= g) := by
  intro level
  obtain ⟨result, result', entries, events, hresults, hxy⟩ := hx level
  cases result with
  | error fault =>
    cases result' with
    | ok c => exact hresults.elim
    | error fault' =>
      refine ⟨.error fault, .error fault', entries, events, hresults, fun journal hlevel => ?_⟩
      obtain ⟨hx, hy⟩ := hxy journal hlevel
      rw [outcome_bind, outcome_bind, hx, hy]
      exact ⟨rfl, rfl⟩
  | ok b =>
    cases result' with
    | error fault' => exact hresults.elim
    | ok c =>
      obtain ⟨last, last', entries', events', hlast, hfg⟩ := hf b c hresults level
      refine ⟨last, last', entries ++ entries', events ++ events', hlast, fun journal hlevel => ?_⟩
      obtain ⟨hx, hy⟩ := hxy journal hlevel
      rw [outcome_bind, outcome_bind, hx, hy, ← journal.extend_extend]
      exact hfg _ hlevel

/-- A first part that ends in the same value on both sides. -/
theorem Alike.bind_eq {x y : Act α β} {f : β → Act α δ} {g : β → Act α ε} (hx : x.Alike Eq y)
    (hf : ∀ b, (f b).Alike S (g b)) : (x >>= f).Alike S (y >>= g) :=
  hx.bind fun b _ h => h ▸ hf b

/-- A first part that writes nothing and is the same on both sides. -/
theorem alike_bind (x : Checked α β) {f : β → Act α δ} {g : β → Act α ε}
    (hf : ∀ b, (f b).Alike S (g b)) : (ofChecked x >>= f).Alike S (ofChecked x >>= g) :=
  (alike_ofChecked (Checked.alike_refl x)).bind_eq hf

theorem alike_bind_of_eq {x y : Checked α β} {f : β → Act α δ} {g : β → Act α ε} (h : y = x)
    (hf : ∀ b, (f b).Alike S (g b)) : (ofChecked x >>= f).Alike S (ofChecked y >>= g) :=
  h ▸ alike_bind x hf

theorem alike_ite {condition : Prop} [Decidable condition] {x x' : Act α β} {y y' : Act α γ}
    (hx : x.Alike R y) (hx' : x'.Alike R y') :
    (if condition then x else x').Alike R (if condition then y else y') := by
  split
  · exact hx
  · exact hx'

/-- It ends in the value, logs about the given topics only and reports exactly the given events. -/
def Tells (x : Act α β) (b : β) (about : Topic → Prop) (events : List (Event α)) : Prop :=
  ∀ level, ∃ entries, (∀ entry ∈ entries, about entry.topic) ∧
    ∀ journal : Journal α, journal.log.level = level →
      x.outcome journal = (.ok b, journal.extend entries events)

variable {about : Topic → Prop}

theorem tells_pure (b : β) : (pure b : Act α β).Tells b about [] :=
  fun _ => ⟨[], nofun, fun journal _ => by rw [journal.extend_nil]; rfl⟩

theorem tells_write (severity : Severity) {topic : Topic} (htopic : about topic)
    (pieces : List (Piece α)) : (write severity topic pieces).Tells () about [] := by
  intro level
  let blank : Log α := { level := level }
  refine ⟨if blank.keeps severity then [⟨severity, topic, pieces⟩] else [], ?_, ?_⟩
  · split
    · exact List.forall_mem_singleton.mpr htopic
    · exact nofun
  · intro journal hlevel
    have hkeeps : journal.log.keeps severity = blank.keeps severity :=
      Log.keeps_congr hlevel severity
    show (Except.ok (), { journal with log := journal.log.write ⟨severity, topic, pieces⟩ }) = _
    rw [Log.write_eq_extend, Journal.extend, List.append_nil, hkeeps]

theorem tells_report (event : Event α) : (report event).Tells () about [event] := by
  refine fun _ => ⟨[], nofun, fun journal _ => ?_⟩
  rw [Journal.extend, Log.extend_nil]
  rfl

theorem Tells.bind {x : Act α β} {f : β → Act α γ} {b : β} {c : γ} {events more : List (Event α)}
    (hx : x.Tells b about events) (hf : (f b).Tells c about more) :
    (x >>= f).Tells c about (events ++ more) := by
  intro level
  obtain ⟨entries, habout, hx⟩ := hx level
  obtain ⟨entries', habout', hf⟩ := hf level
  refine ⟨entries ++ entries', List.forall_mem_append.mpr ⟨habout, habout'⟩,
    fun journal hlevel => ?_⟩
  rw [outcome_bind, hx journal hlevel, ← journal.extend_extend]
  exact hf _ hlevel

/-- What is logged one after the other may be written one after the other. -/
theorem ofLogged_bind (x : Logged α β) (f : β → Logged α γ) :
    ofLogged (x >>= f) = ofLogged x >>= fun b => ofLogged (f b) := by
  apply ExceptT.ext
  apply StateT.ext
  intro journal
  show (ofLogged (x >>= f)).outcome journal = (ofLogged x >>= fun b => ofLogged (f b)).outcome _
  rw [outcome_bind, outcome_ofLogged, outcome_ofLogged, Logged.run_bind]
  rcases x.run.run journal.log with ⟨_ | b, log⟩
  · rfl
  · rfl

end Act

end PauseGoal
