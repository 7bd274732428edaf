/-
  ProgramHost.Proofs.Fallbacks

  The reads of programs, against the plain requests behind them.

  A program that reads never sees the end of the input or a malformed integer: the empty
  string and zero stand for them. Here such a read is compared with the plain request on
  the same source, made with a staging buffer that nothing was staged in before
  (`Session.tokenScan`, `Session.integerScan`), so that a difference to it would be a trace
  of an earlier read. The empty string is no ambiguous answer, because a plain request
  never gives an empty token (`Input.token_verdict`).

  `Session.StringRead` and `Session.IntegerRead` say what a read comes to, and
  `Session.reads_fall_back` that every read does, whatever steps were taken before it.
-/

import ProgramHost.Proofs.Accounting
import ProgramHost.Proofs.FatalRuns
import ProgramHost.Proofs.IntegerOutcome
import ProgramHost.Proofs.TokenOutcome

namespace ProgramHost

/-! ## Plain requests -/

namespace Signals

/-- A word in front of a stream is not its end. -/
theorem front_word_ne_end {word : Bytes} (hne : word ≠ []) (rest : List Signal) :
    front (word.map .byte ++ rest) ≠ .endOfInput := by
  obtain ⟨b, word, rfl⟩ := List.exists_cons_of_ne_nil hne
  simp

end Signals

namespace Input

/-- What a token request can come to: it finds the end of the input exactly when only
    whitespace stands before that, a token that it gives is not empty, and its other
    refusals are a token that is too long and a failure. -/
theorem token_verdict (input : Input) (limit : Nat) :
    ((input.token limit).1 = .error .unexpectedEnd ↔
        Signals.front (Signals.dropBytes isWhitespace input.source.stream) = .endOfInput) ∧
      ((input.token limit).1 = .ok () → (input.token limit).2.staging ≠ []) ∧
      ∀ e, (input.token limit).1 = .error e → e ≠ .unexpectedEnd →
        e = .tokenTooLong limit ∨ ∃ f, e = .device f := by
  -- The request meets one of five fates, by what stands behind the whitespace.
  obtain ⟨ws, word, rest, hcut⟩ := Signals.exists_wordCut input.source.stream
  have hfate := token_fate limit (Signals.Alike.refl _) hcut
  rw [hcut.text_eq]
  generalize input.token limit = result at *
  obtain ⟨outcome, after⟩ := result
  cases hfate with
  | noWord hfront =>
    refine ⟨⟨fun _ => hfront, fun _ => rfl⟩, by simp, fun e he hne => ?_⟩
    cases he
    exact absurd rfl hne
  | tooLong hlong =>
    have hne : word ≠ [] := by
      rintro rfl
      simp at hlong
    refine ⟨by simp [Signals.front_word_ne_end hne rest], by simp, fun e he _ => ?_⟩
    cases he
    exact .inl rfl
  | @failed word rest after f hfits hfront =>
    have hend : Signals.front (word.map .byte ++ rest) ≠ .endOfInput := by
      by_cases hnil : word = []
      · simp [hnil, hfront]
      · exact Signals.front_word_ne_end hnil rest
    refine ⟨by simp [hend], by simp, fun e he _ => ?_⟩
    cases he
    exact .inr ⟨f, rfl⟩
  | ended hne hfits hfront hstaging =>
    exact ⟨by simp [Signals.front_word_ne_end hne rest], fun _ => by rwa [hstaging], by simp⟩
  | delimited hne hfits hfront hb hstaging =>
    exact ⟨by simp [Signals.front_word_ne_end hne rest], fun _ => by rwa [hstaging], by simp⟩

end Input

/-- A word to which signed digits are clamped is zero exactly when they spell zero. -/
theorem Decimal.Clamps.eq_zero_iff {negative : Bool} {digits : Bytes} {word : Int64}
    (h : Clamps negative digits word) :
    word = 0 ↔ Nat.ofDigits 10 (digits.reverse.map digitValue) = 0 := by
  have hzero : word = 0 ↔ word.toInt = 0 := by
    rw [← Int64.toInt_inj, Int64.toInt_zero]
  rw [hzero, show word.toInt = _ from h]
  cases negative with
  | false =>
    simp only [signed, Bool.false_eq_true, if_false]
    omega
  | true =>
    simp only [signed, if_true]
    omega

namespace Input

/-- What an integer request can come to: it is refused at the end of the input, where no
    integer stands and by a failure, and gives zero exactly when its digits spell zero. -/
theorem integer_verdict (input : Input) :
    (∀ e, input.integer.1 = .error e → e ≠ .unexpectedEnd → e ≠ .expectedInteger →
        ∃ f, e = .device f) ∧
      ∀ n ws sign negative digits rest, input.integer.1 = .ok n →
        Signals.NumberCut input.source.stream ws sign negative digits rest →
          (n = 0 ↔ Nat.ofDigits 10 (digits.reverse.map Decimal.digitValue) = 0) := by
  have hfate {ws sign digits : Bytes} {negative : Bool} {rest : List Signal}
      (hcut : Signals.NumberCut input.source.stream ws sign negative digits rest) :
      ∃ left, Signals.IntegerFate sign negative digits rest input.integer.1 left := by
    have h := hcut.fate
    rw [input.integer_stream] at h
    exact ⟨_, h⟩
  constructor
  · intro e he hend hexpected
    obtain ⟨ws, sign, negative, digits, rest, hcut⟩ :=
      Signals.exists_numberCut input.source.stream
    obtain ⟨left, h⟩ := hfate hcut
    rw [he] at h
    cases h with
    | nothing => exact absurd rfl hend
    | signOnly | noDigit => exact absurd rfl hexpected
    | @failed digits rest f hfront => exact ⟨f, rfl⟩
  · intro n ws sign negative digits rest hn hcut
    obtain ⟨left, h⟩ := hfate hcut
    rw [hn] at h
    cases h with
    | ended hne hword | delimited hne hword => exact hword.eq_zero_iff

/-! ## Fallbacks -/

theorem orEmpty_eq_error_iff {outcome : Except Refusal Bytes} {e : Refusal} :
    orEmpty outcome = .error e ↔ outcome = .error e ∧ e ≠ .unexpectedEnd := by
  cases outcome with
  | ok content => simp [orEmpty]
  | error cause => cases cause <;> cases e <;> simp [orEmpty]

theorem orEmpty_eq_ok_iff {outcome : Except Refusal Bytes} {content : Bytes} :
    orEmpty outcome = .ok content ↔
      outcome = .ok content ∨ outcome = .error .unexpectedEnd ∧ content = [] := by
  cases outcome with
  | ok content => simp [orEmpty]
  | error cause => cases cause <;> simp [orEmpty, eq_comm]

theorem orZero_eq_error_iff {outcome : Except Refusal Int64} {e : Refusal} :
    orZero outcome = .error e ↔
      outcome = .error e ∧ e ≠ .unexpectedEnd ∧ e ≠ .expectedInteger := by
  cases outcome with
  | ok content => simp [orZero]
  | error cause => cases cause <;> cases e <;> simp [orZero]

theorem orZero_eq_ok_iff {outcome : Except Refusal Int64} {n : Int64} :
    orZero outcome = .ok n ↔ outcome = .ok n ∨
      (outcome = .error .unexpectedEnd ∨ outcome = .error .expectedInteger) ∧ n = 0 := by
  cases outcome with
  | ok content => simp [orZero]
  | error cause => cases cause <;> simp [orZero, eq_comm]

end Input

/-! ## Strings of a session -/

/-- No history of a store changes the block of a handle. -/
theorem Store.History.block?_eq {st st' : Store} {links : List (Handle × Handle)}
    {adopted : List Block} (h : st.History links adopted st') {a : Handle} {block : Block}
    (hblock : st.block? a = some block) : st'.block? a = some block := by
  induction h with
  | nil => exact hblock
  | cons hchange hrest ih => exact ih (hchange.block?_eq hblock)

/-- A block that was made is the same string as no earlier one. -/
theorem Store.Changes.same?_made {st st' : Store} {d : Draft} (h : st.Changes (.made d) st')
    (hplaced : st.Placed) {a : Handle} (ha : a < st.handles.length) :
    st'.same? st.handles.length a = some false := by
  cases h with
  | made hfits =>
    have hposition : st.handles[a]? = some st.handles[a] := List.getElem?_eq_getElem ha
    have hlt := hplaced.lt hposition
    have hne : ¬ st.cells.length = st.handles[a] := by omega
    simp [same?, List.getElem?_append_left ha, ha, hne]

namespace Session

/-- The token request behind the reading of a string, with a staging buffer of its own. -/
def tokenScan (session : Session) : Except Refusal Unit × Input :=
  Input.token { source := session.host.input.source } session.host.settings.active.tokenLimit

/-- The integer request behind the reading of an integer. -/
def integerScan (session : Session) : Except Refusal Int64 × Input :=
  Input.integer { source := session.host.input.source }

/-- What the reading of a string comes to. -/
structure StringRead (session next : Session) (outcome : Except Refusal Placement) : Prop where
  /-- It is refused when the token request is, but not at the end of the input. -/
  refused_iff : ∀ e, outcome = .error e ↔ session.tokenScan.1 = .error e ∧ e ≠ .unexpectedEnd
  /-- The refusals are a token that is too long and a failure. -/
  refused_only : ∀ e, outcome = .error e →
    e = .tokenTooLong session.host.settings.active.tokenLimit ∨ ∃ f, e = .device f
  /-- The empty string is given exactly when the input ends before a token. -/
  empty_iff : (∃ p, outcome = .ok p ∧ p.block.content = []) ↔ session.host.AtEnd
  /-- In all other cases a string has the token as its content. -/
  content_eq : ∀ p, outcome = .ok p → ¬ session.host.AtEnd →
    session.tokenScan.1 = .ok () ∧ p.block.content = session.tokenScan.2.staging
  /-- A string that is given is a new one. -/
  fresh : ∀ p, outcome = .ok p → ∀ h < session.host.store.handles.length,
    next.host.store.same? p.handle h = some false
  /-- The source is left as the token request leaves it. -/
  source_eq : next.host.input.source = session.tokenScan.2.source
  /-- Whatever is done afterwards, the string and all earlier ones stay as they are. -/
  kept : ∀ more records last, next.run more = (records, some last) →
    (∀ p, outcome = .ok p → last.host.store.block? p.handle = some p.block) ∧
      ∀ h block, session.host.store.block? h = some block →
        last.host.store.block? h = some block

/-- What the reading of an integer comes to. -/
structure IntegerRead (session next : Session) (outcome : Except Refusal Int64) : Prop where
  /-- It is refused when the integer request is, but not at the end of the input and not
      where no integer stands. -/
  refused_iff : ∀ e, outcome = .error e ↔
    session.integerScan.1 = .error e ∧ e ≠ .unexpectedEnd ∧ e ≠ .expectedInteger
  /-- The only refusal is a failure. -/
  refused_only : ∀ e, outcome = .error e → ∃ f, e = .device f
  /-- Zero is given exactly in these two cases and for digits that spell zero. -/
  zero_iff : outcome = .ok 0 ↔
    session.integerScan.1 = .error .unexpectedEnd ∨
      session.integerScan.1 = .error .expectedInteger ∨
      ∃ n ws sign negative digits rest, session.integerScan.1 = .ok n ∧
        Signals.NumberCut session.stream ws sign negative digits rest ∧
        Nat.ofDigits 10 (digits.reverse.map Decimal.digitValue) = 0
  /-- An integer that is found is given. -/
  found : ∀ n, session.integerScan.1 = .ok n → outcome = .ok n
  /-- The source is left as the integer request leaves it. -/
  source_eq : next.host.input.source = session.integerScan.2.source

variable {session next : Session}

/-- The content that a string is made of: the token, or nothing at the end of the input. -/
theorem tokenOrEmpty_eq_scan (session : Session) :
    session.host.input.tokenOrEmpty session.host.settings.active.tokenLimit =
      (Input.orEmpty (session.tokenScan.1.map fun _ => session.tokenScan.2.staging),
        session.tokenScan.2) :=
  Input.tokenOrEmpty_eq _ _

/-- The verdict on the token request behind a read. -/
theorem tokenScan_verdict (session : Session) :
    (session.tokenScan.1 = .error .unexpectedEnd ↔ session.host.AtEnd) ∧
      (session.tokenScan.1 = .ok () → session.tokenScan.2.staging ≠ []) ∧
      ∀ e, session.tokenScan.1 = .error e → e ≠ .unexpectedEnd →
        e = .tokenTooLong session.host.settings.active.tokenLimit ∨ ∃ f, e = .device f :=
  Input.token_verdict _ _

/-- A read is refused as the token request is, but not at the end of the input. -/
theorem read_refused_iff {e : Refusal} :
    (session.host.input.tokenOrEmpty session.host.settings.active.tokenLimit).1 = .error e ↔
      session.tokenScan.1 = .error e ∧ e ≠ .unexpectedEnd := by
  rw [tokenOrEmpty_eq_scan, Input.orEmpty_eq_error_iff]
  refine and_congr_left fun _ => ⟨Input.outcome_of_error, fun h => ?_⟩
  rw [h]
  rfl

/-- A content that was read is empty at the end of the input, and a token elsewhere. -/
theorem content_of_read {content : Bytes}
    (h : (session.host.input.tokenOrEmpty session.host.settings.active.tokenLimit).1 =
      .ok content) :
    (content = [] ↔ session.host.AtEnd) ∧
      (¬ session.host.AtEnd → session.tokenScan.1 = .ok () ∧
        content = session.tokenScan.2.staging) := by
  obtain ⟨hend, htoken, -⟩ := session.tokenScan_verdict
  rw [tokenOrEmpty_eq_scan, Input.orEmpty_eq_ok_iff] at h
  rcases h with hok | ⟨herror, rfl⟩
  · have hscan := Input.outcome_of_ok hok
    have hnot : ¬ session.host.AtEnd := by
      rw [← hend, hscan]
      simp
    rw [hscan] at hok
    cases hok
    exact ⟨iff_of_false (htoken hscan) hnot, fun _ => ⟨hscan, rfl⟩⟩
  · have hatEnd := hend.mp (Input.outcome_of_error herror)
    exact ⟨iff_of_true rfl hatEnd, fun hnot => absurd hatEnd hnot⟩

/-- A read that is refused leaves the strings alone, and its cause is that of the
    request. -/
theorem stringRead_refused {e : Refusal} (hrefused : session.tokenScan.1 = .error e)
    (hne : e ≠ .unexpectedEnd) (hstore : next.host.store = session.host.store)
    (hsource : next.host.input.source = session.tokenScan.2.source) :
    session.StringRead next (.error e) := by
  obtain ⟨hend, -, honly⟩ := session.tokenScan_verdict
  refine ⟨fun e' => ⟨fun heq => ?_, fun hscan => ?_⟩, fun e' heq => ?_, ?_, by simp, by simp,
    hsource, fun more records last hrun => ?_⟩
  · cases heq
    exact ⟨hrefused, hne⟩
  · rw [hrefused] at hscan
    rw [Except.error.inj hscan.1]
  · cases heq
    exact honly e hrefused hne
  · have hnot : ¬ session.host.AtEnd := by
      rw [← hend, hrefused]
      simpa using hne
    simp [hnot]
  · refine ⟨by simp, fun a block hblock => (run_history hrun).block?_eq ?_⟩
    rwa [hstore]

/-- A string that is given has the content that was read, in a block of its own. -/
theorem stringRead_given {content : Bytes}
    (hread : (session.host.input.tokenOrEmpty session.host.settings.active.tokenLimit).1 =
      .ok content)
    (hplaced : session.host.store.Placed)
    (hchange : session.host.store.Changes (.made (.ofBytes content)) next.host.store)
    (hsource : next.host.input.source = session.tokenScan.2.source) :
    session.StringRead next
      (.ok ⟨session.host.store.handles.length, (Draft.ofBytes content).layOut⟩) := by
  have hcontent : (Draft.ofBytes content).layOut.content = content := by
    rw [Draft.layOut_ofBytes, Block.content_ofContent (Layout.lt_of_fits hchange.fits)]
  obtain ⟨hempty, htoken⟩ := content_of_read hread
  have hnotRefused (e : Refusal) : ¬ (session.tokenScan.1 = .error e ∧ e ≠ .unexpectedEnd) := by
    rw [← read_refused_iff, hread]
    simp
  refine ⟨fun e => by simp [hnotRefused e], by simp, ?_, fun p hp hnot => ?_, fun p hp a ha => ?_,
    hsource, fun more records last hrun => ⟨fun p hp => ?_, fun a block hblock => ?_⟩⟩
  · rw [← hempty]
    refine ⟨?_, fun hnil => ⟨_, rfl, hcontent.trans hnil⟩⟩
    rintro ⟨p, hp, hnil⟩
    cases hp
    rwa [hcontent] at hnil
  · cases hp
    rw [hcontent]
    exact htoken hnot
  · cases hp
    exact hchange.same?_made hplaced ha
  · cases hp
    exact (run_history hrun).block?_eq (hchange.block?_new rfl).2
  · exact (run_history hrun).block?_eq (hchange.block?_eq hblock)

/-- A read that the process survives is as `StringRead` says. -/
theorem stringRead {outcome : Except Refusal Placement} {host : Host}
    (hplaced : session.host.store.Placed) (h : session.host.nextString = some (outcome, host)) :
    session.StringRead { session with host } outcome := by
  have hsource : host.input.source = session.tokenScan.2.source := by
    rw [(Host.nextString_frame h).2.2, tokenOrEmpty_eq_scan]
  obtain ⟨e, rfl, hstore⟩ | ⟨content, hread, rfl, hchange⟩ := Host.nextString_changes h
  · obtain ⟨hrefused, hne⟩ := read_refused_iff.mp (Host.nextString_refused_iff.mp ⟨_, h⟩)
    exact stringRead_refused hrefused hne hstore hsource
  · exact stringRead_given hread hplaced hchange hsource

/-- Every read of an integer is as `IntegerRead` says. -/
theorem integerRead (session : Session) :
    ∃ outcome next,
      session.step .nextInteger = some (.integer outcome next.host.input.source, next) ∧
        session.IntegerRead next outcome := by
  have houtcome : session.host.nextInteger.1 = Input.orZero session.integerScan.1 := rfl
  have hsource : session.host.nextInteger.2.input.source = session.integerScan.2.source := rfl
  obtain ⟨honly, hzero⟩ := Input.integer_verdict { source := session.host.input.source }
  refine ⟨session.host.nextInteger.1, { session with host := session.host.nextInteger.2 }, rfl,
    fun e => ?_, fun e he => ?_, ?_, fun n hn => ?_, hsource⟩
  · rw [houtcome, Input.orZero_eq_error_iff]
  · rw [houtcome, Input.orZero_eq_error_iff] at he
    exact honly e he.1 he.2.1 he.2.2
  · rw [houtcome, Input.orZero_eq_ok_iff]
    constructor
    · rintro (hok | ⟨hend | hexpected, -⟩)
      · -- A zero that was found is spelled by the digits that the stream is cut into.
        obtain ⟨ws, sign, negative, digits, rest, hcut⟩ := Signals.exists_numberCut session.stream
        exact .inr (.inr ⟨0, ws, sign, negative, digits, rest, hok, hcut,
          (hzero 0 ws sign negative digits rest hok hcut).mp rfl⟩)
      · exact .inl hend
      · exact .inr (.inl hexpected)
    · rintro (hend | hexpected | ⟨n, ws, sign, negative, digits, rest, hok, hcut, hvalue⟩)
      · exact .inr ⟨.inl hend, rfl⟩
      · exact .inr ⟨.inr hexpected, rfl⟩
      · obtain rfl := (hzero n ws sign negative digits rest hok hcut).mpr hvalue
        exact .inl hok
  · rw [houtcome, Input.orZero_eq_ok_iff]
    exact .inl hn

/-- Reading a string aborts the process exactly when memory cannot hold the token. -/
theorem nextString_eq_none_iff :
    session.step .nextString = none ↔
      session.tokenScan.1 = .ok () ∧
        ¬ session.tokenScan.2.staging.length + 9 ≤ Layout.largest := by
  rw [step, nextString, Option.map_eq_none_iff, Host.nextString_eq_none, Program.Step.Exceeds,
    Program.Step.draft?, tokenOrEmpty_eq_scan]
  cases hscan : session.tokenScan.1 with
  | ok _ => simp [Except.map, Input.orEmpty, Draft.ofBytes]
  | error e => cases e <;> simp [Except.map, Input.orEmpty, Draft.ofBytes, Layout.largest]

/-- Whatever steps were taken before, a program that reads is given what the plain
    request finds, with the empty string and zero as fallbacks and nothing left of what was
    staged earlier. -/
theorem reads_fall_back {start session : Session} {steps : List Step}
    {entries : List (Entry Reply)} (hstart : start.host.store = {})
    (hrun : start.run steps = (entries, some session)) :
    (session.step .nextString = none ↔ session.tokenScan.1 = .ok () ∧
        ¬ session.tokenScan.2.staging.length + 9 ≤ Layout.largest) ∧
      (∀ reply next, session.step .nextString = some (reply, next) →
        ∃ outcome, reply = .string outcome next.host.input.source ∧
          session.StringRead next outcome) ∧
      ∃ outcome next,
        session.step .nextInteger = some (.integer outcome next.host.input.source, next) ∧
          session.IntegerRead next outcome := by
  -- Only a store without dangling handles makes the next string a new one.
  have hplaced : session.host.store.Placed := by
    refine (run_history hrun).placed ?_
    rw [hstart]
    simp [Store.Placed]
  refine ⟨nextString_eq_none_iff, fun reply next hstep => ?_, session.integerRead⟩
  obtain ⟨⟨outcome, host⟩, hread, heq⟩ := Option.map_eq_some_iff.mp hstep
  cases heq
  exact ⟨outcome, rfl, stringRead hplaced hread⟩

/-- Before `k`, the beginning `ab` of a token that a failure cuts off, and `cdefgh`, with
    tokens of at most four bytes and something staged already. -/
def beforeFailures : Session where
  host.settings.fixed := some ⟨4⟩
  host.input.staging := [0x78]
  host.input.source.events := [.data [0x6b, 0x20, 0x61, 0x62], .failure (.ofKind .brokenPipe),
    .data [0x63, 0x64, 0x65], .data [0x66, 0x67, 0x68, 0x20]]

/-- One string, one failure and one token that is too long later, `cde` is staged and the
    next string is `fgh`. -/
theorem reads_fall_back_beforeFailures :
    ∃ entries session p next,
      beforeFailures.run [.nextString, .nextString, .nextString] = (entries, some session) ∧
        session.host.input.staging = [0x63, 0x64, 0x65] ∧
        session.step .nextString = some (.string (.ok p) next.host.input.source, next) ∧
        p.block.content = [0x66, 0x67, 0x68] ∧ next.host.store.same? p.handle 0 = some false ∧
        ∃ last,
          session.step .nextInteger = some (.integer (.ok 0) last.host.input.source, last) := by
  have hseen : (beforeFailures.run [.nextString, .nextString, .nextString]).2.map (fun last =>
      (last.host.input.staging, last.host.store.handles.length)) =
      some ([0x63, 0x64, 0x65], 1) := by
    decide +kernel
  have hscans : (beforeFailures.run [.nextString, .nextString, .nextString]).2.map (fun last =>
      (last.tokenScan.1, last.tokenScan.2.staging, last.integerScan.1)) =
      some (.ok (), [0x66, 0x67, 0x68], .error .expectedInteger) := by
    decide +kernel
  obtain ⟨session, hsession, hstate⟩ := Option.map_eq_some_iff.mp hseen
  obtain ⟨hstaging, hhandles⟩ : _ ∧ _ := by simpa using hstate
  rw [hsession] at hscans
  obtain ⟨htoken, hword, hinteger⟩ : _ ∧ _ ∧ _ := by simpa using hscans
  have hrun : beforeFailures.run [.nextString, .nextString, .nextString] = (_, some session) :=
    Prod.ext rfl hsession
  obtain ⟨habort, hstring, outcome, last, hnumber, hfallback⟩ := reads_fall_back rfl hrun
  have hzero : outcome = .ok 0 := hfallback.zero_iff.mpr (.inr (.inl hinteger))
  have hanswered : session.step .nextString ≠ none := by
    rw [ne_eq, habort, htoken, hword]
    decide
  obtain ⟨⟨reply, next⟩, hstep⟩ := Option.ne_none_iff_exists'.mp hanswered
  obtain ⟨read, rfl, hread⟩ := hstring reply next hstep
  have hnotEnd : ¬ session.host.AtEnd := by
    rw [← session.tokenScan_verdict.1, htoken]
    decide
  cases read with
  | error e =>
    have hscan := ((hread.refused_iff e).mp rfl).1
    rw [htoken] at hscan
    cases hscan
  | ok p =>
    refine ⟨_, session, p, next, hrun, hstaging, hstep, ?_, ?_, last, hzero ▸ hnumber⟩
    · rw [(hread.content_eq p rfl hnotEnd).2, hword]
    · exact hread.fresh p rfl 0 (by omega)

end Session

end ProgramHost
