import TreeQuery.Proofs.Event.Replay

/-!
# Reading moves a cursor

A reader of tokens with room for one token given back could lose a token, or show one twice. While
a selector group is read it does neither: it always stands at one place in the list of tokens, and
what was read and not given back is what stands before that place. To say this of all the states
that the reader goes through, it is watched, and each use that changes it is logged with the state
that the use found. Watching changes nothing else. Nothing is asked of the receiver: it may refuse
any event, and its custom selectors may change.
-/

set_option autoImplicit false

namespace TreeQuery

/-! ## Readers under watch -/

/-- A use that changes a reader, with the reader that it found: a token is taken, or given back. -/
inductive ReaderUse
  | read (found : TokenReader) (t : Token)
  | unread (found : TokenReader) (t : Token)

def ReaderUse.found : ReaderUse → TokenReader
  | read r _ | unread r _ => r

/-- A reader with the uses that led to it, the first one first. -/
structure WatchedReader where
  reader : TokenReader
  uses : List ReaderUse := []

namespace WatchedReader

def read (w : WatchedReader) : Token × WatchedReader :=
  (w.reader.read.1, ⟨w.reader.read.2, w.uses ++ [.read w.reader w.reader.read.1]⟩)

def unread (t : Token) (w : WatchedReader) : WatchedReader :=
  ⟨w.reader.unread t, w.uses ++ [.unread w.reader t]⟩

instance : TokenSource WatchedReader where
  peek w := w.reader.peek
  read := read
  unread := unread

/-- The reader before the use number `n`, or at the end, with the uses up to there. -/
def before (w : WatchedReader) (n : Nat) : WatchedReader :=
  ⟨(w.uses[n]?.map ReaderUse.found).getD w.reader, w.uses.take n⟩

theorem before_concat {w : WatchedReader} (use : ReaderUse) (hfound : use.found = w.reader)
    (r : TokenReader) (n : Nat) :
    before ⟨r, w.uses ++ [use]⟩ n = w.before n ∨
      before ⟨r, w.uses ++ [use]⟩ n = ⟨r, w.uses ++ [use]⟩ := by
  unfold before
  rcases Nat.lt_trichotomy n w.uses.length with hlt | rfl | hlt
  · left
    rw [List.take_append_of_le_length (Nat.le_of_lt hlt), List.getElem?_append_left hlt,
      List.getElem?_eq_getElem hlt]
    rfl
  · left
    simp [hfound]
  · right
    have hlength : (w.uses ++ [use]).length ≤ n := by
      rw [List.length_append, List.length_singleton]
      exact hlt
    rw [List.getElem?_eq_none hlength, List.take_of_length_le hlength]
    rfl

theorem uses_before_succ {w : WatchedReader} {n : Nat} {use : ReaderUse}
    (h : w.uses[n]? = some use) : (w.before (n + 1)).uses = w.uses.take n ++ [use] := by
  rw [before, List.take_add_one, h]
  rfl

end WatchedReader

/-! ## Cursors -/

/-- The tokens passed after a use, from those passed before it. A read past the end passes none. -/
def ReaderUse.pass (ts : List Token) : ReaderUse → List Token
  | read found t => if found.toList = [] then ts else ts ++ [t]
  | unread _ _ => ts.dropLast

def passed (uses : List ReaderUse) : List Token :=
  uses.foldl ReaderUse.pass []

/-- A reader stands in `tokens` after `passed`, and answers as a cursor does that stands there. A
token that is read and given back is there again; past the end only the answers are the same. -/
structure TokenReader.StandsAfter (tokens passed : List Token) (r : TokenReader) : Prop where
  split : passed ++ r.toList = tokens
  peek : r.peek = r.toList.head?.getD .endOfInput
  read : r.read.1 = r.peek ∧ r.read.2.toList = r.toList.tail
  unread : (r.read.2.unread r.read.1).peek = r.peek ∧ (r.read.2.unread r.read.1).read = r.read ∧
    (r.toList ≠ [] → (r.read.2.unread r.read.1).toList = r.toList)

theorem TokenReader.StandsAfter.of_split {tokens passed : List Token} {r : TokenReader}
    (h : passed ++ r.toList = tokens) : r.StandsAfter tokens passed where
  split := h
  peek := r.peek_eq_head
  read := r.read_eq_peek_tail
  unread := ⟨r.read_eq_peek_tail.1, r.read_unread_read, r.toList_unread_read⟩

/-- The log of a cursor over `tokens`: at each moment it stands after the tokens passed so far, a
read takes the token that was shown, and a token is given back only right after it was read, to a
reader that holds none yet. -/
structure WatchedReader.IsCursor (tokens : List Token) (w : WatchedReader) : Prop where
  stands : ∀ n, (w.before n).reader.StandsAfter tokens (passed (w.before n).uses)
  read : ∀ {n r t}, w.uses[n]? = some (.read r t) →
    t = r.peek ∧ (w.before (n + 1)).reader = r.read.2
  unread : ∀ {n r t}, w.uses[n]? = some (.unread r t) →
    r.pushedBack = none ∧ (w.before (n + 1)).reader = r.unread t ∧
      ∃ m r', n = m + 1 ∧ w.uses[m]? = some (.read r' t) ∧
        (w.before (n + 1)).reader.toList = r'.toList

/-- How a reader comes about that is given back only what it has just been read. -/
inductive WatchedReader.Run (tokens : List Token) : WatchedReader → Prop
  | start : Run tokens ⟨.ofList tokens, []⟩
  | read {w : WatchedReader} : Run tokens w → Run tokens w.read.2
  | lookAhead {w : WatchedReader} : Run tokens w → w.reader.toList ≠ [] →
      Run tokens (w.read.2.unread w.read.1)

namespace WatchedReader.Run

variable {tokens : List Token} {w : WatchedReader}

theorem split (h : Run tokens w) : passed w.uses ++ w.reader.toList = tokens := by
  induction h with
  | start => rfl
  | @read w _ ih =>
    obtain ⟨hhead, htail⟩ := w.reader.read_eq_peek_tail
    simp only [WatchedReader.read, passed, List.foldl_append, List.foldl_cons, List.foldl_nil,
      ReaderUse.pass] at ih ⊢
    rw [hhead, htail, w.reader.peek_eq_head]
    cases hrest : w.reader.toList with
    | nil => simpa [hrest] using ih
    | cons t ts => simpa [hrest] using ih
  | @lookAhead w _ hne ih =>
    simp only [WatchedReader.read, WatchedReader.unread, passed, List.foldl_append,
      List.foldl_cons, List.foldl_nil, ReaderUse.pass, if_neg hne, List.dropLast_concat] at ih ⊢
    rw [w.reader.toList_unread_read hne]
    exact ih

theorem before (h : Run tokens w) (n : Nat) : Run tokens (w.before n) := by
  have hread {w : WatchedReader} (hw : Run tokens w) (ih : Run tokens (w.before n)) :
      Run tokens (w.read.2.before n) := by
    rcases before_concat (.read w.reader w.read.1) rfl w.reader.read.2 n with heq | heq
    · exact heq ▸ ih
    · exact heq ▸ hw.read
  induction h with
  | start =>
    have hstart : WatchedReader.before ⟨.ofList tokens, []⟩ n = ⟨.ofList tokens, []⟩ := by
      simp [WatchedReader.before]
    rw [hstart]
    exact start
  | read hw ih => exact hread hw ih
  | @lookAhead w hw hne ih =>
    rcases before_concat (.unread w.read.2.reader w.read.1) rfl
      (w.read.2.reader.unread w.read.1) n with heq | heq
    · exact heq ▸ hread hw ih
    · exact heq ▸ hw.lookAhead hne

theorem of_concat_read (h : Run tokens w) {uses : List ReaderUse} {r : TokenReader} {t : Token}
    (huses : w.uses = uses ++ [.read r t]) : t = r.peek ∧ w.reader = r.read.2 := by
  cases h with
  | start => simp at huses
  | @read w _ =>
    obtain ⟨-, rfl, rfl⟩ : w.uses = uses ∧ w.reader = r ∧ w.reader.read.1 = t := by
      simpa [WatchedReader.read] using huses
    exact ⟨w.reader.read_eq_peek_tail.1, rfl⟩
  | lookAhead => simp [WatchedReader.unread] at huses

theorem of_concat_unread (h : Run tokens w) {uses : List ReaderUse} {r : TokenReader} {t : Token}
    (huses : w.uses = uses ++ [.unread r t]) :
    r.pushedBack = none ∧ w.reader = r.unread t ∧
      ∃ uses' r', uses = uses' ++ [.read r' t] ∧ w.reader.toList = r'.toList := by
  cases h with
  | start => simp at huses
  | read => simp [WatchedReader.read] at huses
  | @lookAhead w _ hne =>
    obtain ⟨rfl, hlast⟩ := List.append_inj' huses rfl
    obtain ⟨rfl, rfl⟩ : w.read.2.reader = r ∧ w.read.1 = t := by simpa using hlast
    exact ⟨w.reader.pushedBack_read, rfl, w.uses, w.reader, rfl, w.reader.toList_unread_read hne⟩

theorem isCursor (h : Run tokens w) : w.IsCursor tokens where
  stands n := .of_split (h.before n).split
  read {n _ _} huse := (h.before (n + 1)).of_concat_read (uses_before_succ huse)
  unread {n r t} huse := by
    obtain ⟨hfresh, hback, uses, r', huses, hrest⟩ :=
      (h.before (n + 1)).of_concat_unread (uses_before_succ huse)
    have hn : n = uses.length + 1 := by
      have hlt := (List.getElem?_eq_some_iff.1 huse).1
      have hlength := congrArg List.length huses
      rw [List.length_take, Nat.min_eq_left (Nat.le_of_lt hlt)] at hlength
      simpa using hlength
    have hread : (w.uses.take n)[uses.length]? = some (.read r' t) := by
      rw [huses]
      simp
    rw [List.getElem?_take_of_lt (by omega)] at hread
    exact ⟨hfresh, hback, uses.length, r', hn, hread, hrest⟩

end WatchedReader.Run

/-! ## Reading under watch -/

namespace Parse

variable {G : Type} {tokens : List Token} {α : Type}

/-- What is left of a result when the log is forgotten. -/
def unwatch : EStateM.Result SelectorError (ParseState WatchedReader G) α →
    EStateM.Result SelectorError (ParseState TokenReader G) α
  | .ok a s => .ok a ⟨s.source.reader, s.sink⟩
  | .error e s => .error e ⟨s.source.reader, s.sink⟩

/-- `p` reads under watch what `q` reads, and goes on with the run of the reader. -/
def Watches (tokens : List Token) (p : Parse WatchedReader G α) (q : Parse TokenReader G α) :
    Prop :=
  ∀ (w : WatchedReader) (g : G), w.Run tokens →
    q ⟨w.reader, g⟩ = unwatch (p ⟨w, g⟩) ∧ (lastState (p ⟨w, g⟩)).source.Run tokens

/-- Looking ahead for a namespace part, the one place where a token is given back, goes on with
the run. -/
theorem namespaceFrom_watched {w : WatchedReader} (hw : w.Run tokens) :
    (namespaceFrom w).1 = (namespaceFrom w.reader).1 ∧
      (namespaceFrom w).2.reader = (namespaceFrom w.reader).2 ∧ (namespaceFrom w).2.Run tokens := by
  refine namespaceFrom_alike (fun (w : WatchedReader) r => w.reader = r ∧ w.Run tokens)
    (fun h => congrArg TokenReader.peek h.1) ?read ⟨rfl, hw⟩ fun hkind =>
      ⟨rfl, hw.lookAhead fun hnil => ?back⟩
  case read =>
    rintro w _ ⟨rfl, hw⟩
    exact ⟨rfl, rfl, hw.read⟩
  case back =>
    have hend : TokenSource.peek w.reader = .endOfInput := by
      rw [LawfulSource.peek_eq]
      exact congrArg TokenSource.peek hnil
    rw [hend] at hkind
    exact absurd hkind (by decide)

namespace Watches

theorem bind {β : Type} {p : Parse WatchedReader G α} {q : Parse TokenReader G α}
    {f : α → Parse WatchedReader G β} {k : α → Parse TokenReader G β} (h : Watches tokens p q)
    (hf : ∀ a, Watches tokens (f a) (k a)) : Watches tokens (p >>= f) (q >>= k) := by
  intro w g hw
  obtain ⟨hq, hrun⟩ := h w g hw
  cases hp : p ⟨w, g⟩ with
  | ok a s =>
    rw [hp] at hq hrun
    rw [bind_ok hp, bind_ok hq]
    exact hf a s.source s.sink hrun
  | error e s =>
    rw [hp] at hq hrun
    rw [bind_error hp, bind_error hq]
    exact ⟨rfl, hrun⟩

theorem tryRead (specs : List TokenSpec) :
    Watches tokens (Parse.tryRead specs : Parse WatchedReader G _) (Parse.tryRead specs) := by
  intro w g hw
  have hpeek : TokenSource.peek w = TokenSource.peek w.reader := rfl
  rw [tryRead_eq, tryRead_eq, hpeek]
  split
  · exact ⟨rfl, hw.read⟩
  · exact ⟨rfl, hw⟩

theorem namespacePart :
    Watches tokens (Parse.namespacePart : Parse WatchedReader G _) Parse.namespacePart := by
  intro w g hw
  obtain ⟨hpart, hreader, hrun⟩ := namespaceFrom_watched hw
  rw [namespacePart_run, namespacePart_run, ← hpart, ← hreader]
  exact ⟨rfl, hrun⟩

variable [EventSink G]

theorem emit (e : Event) :
    Watches tokens (Parse.emit e : Parse WatchedReader G _) (Parse.emit e) := by
  intro w g hw
  unfold Parse.emit
  dsimp only
  cases EventSink.handle e g with
  | ok u g' => exact ⟨rfl, hw⟩
  | error err g' => exact ⟨rfl, hw⟩

theorem alongside :
    Alongside fun {α} (p : Parse WatchedReader G α) (q : Parse TokenReader G α) =>
      Watches tokens p q where
  pure _ _ _ hw := ⟨rfl, hw⟩
  throw _ _ _ hw := ⟨rfl, hw⟩
  bind h hf := h.bind hf
  peek _ _ hw := ⟨rfl, hw⟩
  tryRead := tryRead
  namespacePart := namespacePart
  signature? _ _ _ hw := ⟨rfl, hw⟩
  emit e _ := emit e
  nest h := (emit _).bind fun _ => h.bind fun _ => emit _

end Watches

end Parse

def watchGroup {G : Type} [EventSink G] (tokens : List Token) (g : G) :
    EStateM.Result SelectorError (ParseState WatchedReader G) Unit :=
  Parse.group (tokens.length + 1) ⟨⟨.ofList tokens, []⟩, g⟩

/-- Reading moves a cursor over the tokens, from its start to where it ends or fails, for every
receiver. Watching it changes no result, no event and no place. -/
theorem group_isCursor {G : Type} [EventSink G] (tokens : List Token) (g : G) :
    Parse.group (tokens.length + 1) ⟨TokenReader.ofList tokens, g⟩ =
        Parse.unwatch (watchGroup tokens g) ∧
      (lastState (watchGroup tokens g)).source.IsCursor tokens := by
  obtain ⟨hsame, hrun⟩ := Parse.Watches.alongside.group (Parse.Watches.emit .close)
    (tokens.length + 1) ⟨.ofList tokens, []⟩ g .start
  exact ⟨hsame, hrun.isCursor⟩

/-- A name without a namespace is read, given back and read again. -/
example :
    let a : Token := ⟨.ident, "a"⟩
    let w := (lastState (watchGroup [a] ({ signature? := fun _ => none } : Transcript))).source
    w.uses = [.read ⟨[a], none⟩ a, .unread ⟨[], none⟩ a, .read ⟨[], some a⟩ a,
        .read ⟨[], none⟩ .endOfInput] ∧ passed w.uses = [a] :=
  ⟨rfl, rfl⟩

end TreeQuery
