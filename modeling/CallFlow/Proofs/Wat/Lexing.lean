/-
Cutting a text into pieces by the lexical rules of the text format.

Where `Reading` refuses what an emitted text does not have, the machine here knows all of the
rules: line comments, block comments that nest, and tokens that are runs of characters and
quoted stretches, ended only by a blank or a bracket. Every piece keeps its characters, so that
it is seen where a piece ends. Two things are shown of the machine: it loses no character
(`flatMap_chars`, from one step to a whole run), and the text of an s-expression with proper
words is cut into the brackets and atoms that it was made of, with blanks between them and
nothing else (`Sealed`).
-/
import CallFlow.Proofs.Wat.Words

namespace CallFlow.Wat

-- ================================================================ pieces

/-- A piece of a text, with its characters. -/
inductive Piece where
  | blank (c : Char)
  | opening
  | closing
  | comment (chars : List Char)
  | token (chars : List Char)
  deriving DecidableEq

namespace Piece

/-- The characters of a piece. -/
def chars : Piece → List Char
  | blank c => [c]
  | opening => ['(']
  | closing => [')']
  | comment cs => cs
  | token cs => cs

def isBlank : Piece → Bool
  | blank _ => true
  | _ => false

def isComment : Piece → Bool
  | comment _ => true
  | _ => false

@[simp] theorem isBlank_blank (c : Char) : (blank c).isBlank = true := rfl

@[simp] theorem isBlank_opening : opening.isBlank = false := rfl

@[simp] theorem isBlank_closing : closing.isBlank = false := rfl

end Piece

/-- Whether a token may hold a character outside of quotes. -/
def isTokenChar (c : Char) : Bool :=
  isWordChar c || List.contains [',', ';', '[', ']', '\x7b', '\x7d'] c

/-- Where the machine stands, with the characters of the piece that it
is in. -/
inductive Place where
  | between
  /-- Behind an opening bracket, which may start a comment. -/
  | opened
  /-- Behind a semicolon, which may start a comment. -/
  | semicolon
  | lineComment (chars : List Char)
  /-- In a comment inside so many others. The last character counts if
  the next may make a mark with it. -/
  | blockComment (depth : Nat) (chars : List Char) (last : Option Char)
  | token (chars : List Char)
  /-- In a token, inside quotes. -/
  | quoted (chars : List Char)
  /-- In a token, inside quotes and behind a backslash. -/
  | escaped (chars : List Char)

namespace Place

/-- The characters that belong to no piece yet. -/
def held : Place → List Char
  | between => []
  | opened => ['(']
  | semicolon => [';']
  | lineComment chars => chars
  | blockComment _ chars _ => chars
  | token chars => chars
  | quoted chars => chars
  | escaped chars => chars

/-- A character from between pieces. -/
def start (c : Char) : Option (List Piece × Place) :=
  if isBlank c then some ([.blank c], between)
  else if c = '(' then some ([], opened)
  else if c = ')' then some ([.closing], between)
  else if c = ';' then some ([], semicolon)
  else if c = '"' then some ([], quoted [c])
  else if isTokenChar c then some ([], token [c])
  else none

/-- A character that comes behind a finished piece. -/
def startBehind (piece : Piece) (c : Char) : Option (List Piece × Place) :=
  (start c).map fun (ps, place) => (piece :: ps, place)

/-- A character in a token. -/
def tokenStep (chars : List Char) (c : Char) : Option (List Piece × Place) :=
  if isDelimiter c then startBehind (.token chars) c
  else if c = '"' then some ([], quoted (chars ++ [c]))
  else if isTokenChar c then some ([], token (chars ++ [c]))
  else none

/-- A character in a block comment. -/
def commentStep (depth : Nat) (chars : List Char) (last : Option Char) (c : Char) :
    List Piece × Place :=
  if last = some ';' ∧ c = ')' then
    match depth with
    | 0 => ([.comment (chars ++ [c])], between)
    | depth + 1 => ([], blockComment depth (chars ++ [c]) none)
  else if last = some '(' ∧ c = ';' then ([], blockComment (depth + 1) (chars ++ [c]) none)
  else ([], blockComment depth (chars ++ [c]) (some c))

/-- The pieces that a character completes, and where the machine stands
then. -/
def step : Place → Char → Option (List Piece × Place)
  | between, c => start c
  | opened, c =>
    if c = ';' then some ([], blockComment 0 ['(', c] none) else startBehind .opening c
  | semicolon, c => if c = ';' then some ([], lineComment [';', c]) else tokenStep [';'] c
  | lineComment chars, c =>
    if c = '\n' ∨ c = '\r' then some ([.comment chars, .blank c], between)
    else some ([], lineComment (chars ++ [c]))
  | blockComment depth chars last, c => some (commentStep depth chars last c)
  | token chars, c => tokenStep chars c
  | quoted chars, c =>
    if c = '"' then some ([], token (chars ++ [c]))
    else if c = '\\' then some ([], escaped (chars ++ [c]))
    else if 0x20 ≤ c.toNat ∧ c.toNat ≠ 0x7F then some ([], quoted (chars ++ [c]))
    else none
  | escaped chars, c => some ([], quoted (chars ++ [c]))

/-- The machine on several characters. -/
def run : Place → List Char → Option (List Piece × Place)
  | place, [] => some ([], place)
  | place, c :: cs => do
    let (ps, place) ← step place c
    let (qs, place) ← run place cs
    return (ps ++ qs, place)

/-- The last piece of a text that ends here. -/
def finish : Place → Option (List Piece)
  | between => some []
  | opened => some [.opening]
  | semicolon => some [.token [';']]
  | lineComment chars => some [.comment chars]
  | token chars => some [.token chars]
  | _ => none

end Place

/-- The pieces of a text. -/
def pieces? (cs : List Char) : Option (List Piece) := do
  let (ps, place) ← Place.between.run cs
  return ps ++ (← place.finish)

-- =================================================== no character is lost

namespace Place

/-- What is held and what comes next is in the pieces that are
completed, or held. -/
def Keeps (before : List Char) (result : Option (List Piece × Place)) : Prop :=
  ∀ ps next, result = some (ps, next) → ps.flatMap Piece.chars ++ next.held = before

theorem keeps_none (before : List Char) : Keeps before none := by
  intro ps next h
  cases h

/-- A step keeps the text if the pieces that it ends and what it still
holds are what was there before. -/
theorem keeps_some {before : List Char} {ps : List Piece} {next : Place}
    (h : ps.flatMap Piece.chars ++ next.held = before) : Keeps before (some (ps, next)) := by
  intro ps' next' heq
  cases heq
  exact h

theorem keeps_start (c : Char) : Keeps [c] (start c) := by
  unfold start
  split
  · exact keeps_some rfl
  split
  · next hc => exact keeps_some (by rw [hc]; rfl)
  split
  · next hc => exact keeps_some (by rw [hc]; rfl)
  split
  · next hc => exact keeps_some (by rw [hc]; rfl)
  split
  · exact keeps_some rfl
  split
  · exact keeps_some rfl
  · exact keeps_none _

/-- A piece that ends before a character is kept, and so is the
character. -/
theorem keeps_startBehind (piece : Piece) (c : Char) :
    Keeps (piece.chars ++ [c]) (startBehind piece c) := by
  intro ps next h
  obtain ⟨⟨qs, place⟩, hstart, heq⟩ := Option.map_eq_some_iff.mp h
  cases heq
  rw [List.flatMap_cons, List.append_assoc, keeps_start c _ _ hstart]

theorem keeps_tokenStep (chars : List Char) (c : Char) :
    Keeps (chars ++ [c]) (tokenStep chars c) := by
  unfold tokenStep
  split
  · exact keeps_startBehind (.token chars) c
  split
  · exact keeps_some rfl
  split
  · exact keeps_some rfl
  · exact keeps_none _

/-- A step inside a comment keeps the text, at every depth of nesting. -/
theorem keeps_commentStep (depth : Nat) (chars : List Char) (last : Option Char) (c : Char) :
    Keeps (chars ++ [c]) (some (commentStep depth chars last c)) := by
  unfold commentStep
  split
  · cases depth with
    | zero => exact keeps_some (by simp [Piece.chars, held])
    | succ depth => exact keeps_some rfl
  split
  · exact keeps_some rfl
  · exact keeps_some rfl

/-- No step loses a character: this is the invariant of the whole run,
with one case for each place. -/
theorem keeps_step (place : Place) (c : Char) : Keeps (place.held ++ [c]) (place.step c) := by
  cases place with
  | between => exact keeps_start c
  | opened =>
    rw [step]
    split
    · exact keeps_some rfl
    · exact keeps_startBehind .opening c
  | semicolon =>
    rw [step]
    split
    · exact keeps_some rfl
    · exact keeps_tokenStep [';'] c
  | lineComment chars =>
    rw [step]
    split
    · exact keeps_some (by simp [Piece.chars, held])
    · exact keeps_some rfl
  | blockComment depth chars last => exact keeps_commentStep depth chars last c
  | token chars => exact keeps_tokenStep chars c
  | quoted chars =>
    rw [step]
    split
    · exact keeps_some rfl
    split
    · exact keeps_some rfl
    split
    · exact keeps_some rfl
    · exact keeps_none _
  | escaped chars => exact keeps_some rfl

/-- A run of one more character is one step and the run from there. -/
theorem run_cons {place last : Place} {c : Char} {cs : List Char} {ps : List Piece} :
    place.run (c :: cs) = some (ps, last) ↔
      ∃ qs next rs, place.step c = some (qs, next) ∧ next.run cs = some (rs, last)
        ∧ qs ++ rs = ps := by
  simp only [run, Option.bind_eq_bind, Option.bind_eq_some_iff, Option.pure_def,
    Option.some.injEq, Prod.mk.injEq, Prod.exists]
  refine ⟨fun h => ?_, fun h => ?_⟩
  · obtain ⟨qs, next, hstep, rs, last, hrun, rfl, rfl⟩ := h
    exact ⟨qs, next, rs, hstep, hrun, rfl⟩
  · obtain ⟨qs, next, rs, hstep, hrun, rfl⟩ := h
    exact ⟨qs, next, hstep, rs, last, hrun, rfl, rfl⟩

/-- A run keeps all characters, since each step does. -/
theorem keeps_run (cs : List Char) (place : Place) : Keeps (place.held ++ cs) (place.run cs) := by
  induction cs generalizing place with
  | nil =>
    rw [List.append_nil]
    exact keeps_some rfl
  | cons c cs ih =>
    intro ps last h
    obtain ⟨qs, next, rs, hstep, hrun, rfl⟩ := run_cons.mp h
    have hc := keeps_step place c qs next hstep
    have hcs := ih next rs last hrun
    rw [List.flatMap_append, List.append_assoc, hcs, ← List.append_assoc, hc, List.append_assoc]
    rfl

/-- At the end of the text, what is held becomes the last piece. -/
theorem flatMap_finish {place : Place} {ps : List Piece} (h : place.finish = some ps) :
    ps.flatMap Piece.chars = place.held := by
  cases place with
  | between => cases h; rfl
  | opened => cases h; rfl
  | semicolon => cases h; rfl
  | lineComment chars => cases h; simp [Piece.chars, held]
  | blockComment depth chars last => cases h
  | token chars => cases h; simp [Piece.chars, held]
  | quoted chars => cases h
  | escaped chars => cases h

end Place

/-- The pieces of a text are those of the run and the one that ends with
the text. -/
theorem pieces?_eq_some {cs : List Char} {ps : List Piece} :
    pieces? cs = some ps ↔
      ∃ qs place rs, Place.between.run cs = some (qs, place) ∧ place.finish = some rs
        ∧ qs ++ rs = ps := by
  simp only [pieces?, Option.bind_eq_bind, Option.bind_eq_some_iff, Option.pure_def,
    Option.some.injEq, Prod.exists]
  refine ⟨fun h => ?_, fun h => ?_⟩
  · obtain ⟨qs, place, hrun, rs, hfinish, hps⟩ := h
    exact ⟨qs, place, rs, hrun, hfinish, hps⟩
  · obtain ⟨qs, place, rs, hrun, hfinish, hps⟩ := h
    exact ⟨qs, place, hrun, rs, hfinish, hps⟩

/-- The pieces of a text, one behind the other, are the text. -/
theorem flatMap_chars {cs : List Char} {ps : List Piece} (h : pieces? cs = some ps) :
    ps.flatMap Piece.chars = cs := by
  obtain ⟨qs, place, rs, hrun, hfinish, rfl⟩ := pieces?_eq_some.mp h
  rw [List.flatMap_append, Place.flatMap_finish hfinish]
  exact Place.keeps_run cs .between qs place hrun

-- ====================================================== what tokens mean

/-- The bytes of a quoted stretch behind its opening quote. The closing
quote must be the last character. A byte is a quote or a backslash
behind a backslash, two hexadecimal digits behind one, or stands for
itself. -/
def unquote? : List Char → Option (List UInt8)
  | [] => none
  | c :: cs =>
    if c = '"' then if cs = [] then some [] else none
    else if c = '\\' then
      match cs with
      | [] => none
      | e :: cs =>
        if e = '"' ∨ e = '\\' then (unquote? cs).map (UInt8.ofNat e.toNat :: ·)
        else
          match cs with
          | [] => none
          | d :: cs => do
            let high ← hexValue? e
            let low ← hexValue? d
            (unquote? cs).map (UInt8.ofNat (16 * high + low) :: ·)
    else (unquote? cs).map (String.utf8EncodeChar c ++ ·)

/-- The atom that a token stands for: a word, a string or a quoted
identifier. -/
def atom? (cs : List Char) : Option Sexp :=
  if isWord (String.ofList cs) then some (.word (String.ofList cs))
  else
    match cs with
    | '"' :: cs => (unquote? cs).map .string
    | '$' :: '"' :: cs => (unquote? cs).map .quoted
    | _ => none

/-- The token that a piece stands for. -/
def Piece.token? : Piece → Option Token
  | opening => some .opening
  | closing => some .closing
  | token cs => (atom? cs).map .atom
  | _ => none

/-- The characters of a token that has quotes. -/
def Piece.quotation? : Piece → Option (List Char)
  | token cs => if '"' ∈ cs then some cs else none
  | _ => none

/-- The piece that a token is written as. -/
def Token.piece : Token → Piece
  | .opening => .opening
  | .closing => .closing
  | .atom s => .token s.text.toList

-- ========================================================= sealed texts

/-- A text is cut into the pieces of the given tokens, with blanks
between them and nothing else. It does not make a comment out of a
bracket in front of it. -/
structure Sealed (cs : List Char) (ts : List Token) : Prop where
  cut : ∃ ps, pieces? cs = some ps ∧ ps.filter (!·.isBlank) = ts.map Token.piece
  head : cs.head? ≠ some ';'

theorem isComment_piece (t : Token) : t.piece.isComment = false := by
  cases t <;> rfl

/-- The pieces of a sealed text are no comments. -/
theorem isComment_of_filter {ps : List Piece} {ts : List Token}
    (h : ps.filter (!·.isBlank) = ts.map Token.piece) : ∀ p ∈ ps, p.isComment = false := by
  intro p hp
  cases hblank : p.isBlank with
  | true =>
    cases p with
    | blank c => rfl
    | _ => cases hblank
  | false =>
    have hmem : p ∈ ps.filter (!·.isBlank) := List.mem_filter.mpr ⟨hp, by simp [hblank]⟩
    rw [h] at hmem
    obtain ⟨t, -, rfl⟩ := List.mem_map.mp hmem
    exact isComment_piece t

/-- Behind anything but a comment, a delimiter completes the piece.
Delimiters are blanks and brackets, which no piece but a comment or a
string can hold. -/
theorem Place.step_delimiter {place : Place} {ps : List Piece} {d : Char}
    (h : place.finish = some ps) (hps : ∀ p ∈ ps, p.isComment = false)
    (hd : isDelimiter d = true) :
    place.step d = (start d).map fun (qs, next) => (ps ++ qs, next) := by
  have hsemicolon : d ≠ ';' := by
    intro hc
    subst hc
    exact absurd hd (by decide)
  cases place with
  | between => cases h; simp [step]
  | opened => cases h; simp [step, hsemicolon, startBehind]
  | semicolon => cases h; simp [step, hsemicolon, tokenStep, hd, startBehind]
  | lineComment chars =>
    cases h
    exact absurd (hps _ List.mem_cons_self) (by simp [Piece.isComment])
  | blockComment depth chars last => cases h
  | token chars => cases h; simp [step, tokenStep, hd, startBehind]
  | quoted chars => cases h
  | escaped chars => cases h

/-- Runs can be put together where one ends and the other starts. -/
theorem Place.run_append {place next last : Place} {cs cs' : List Char} {ps qs : List Piece}
    (h : place.run cs = some (ps, next)) (h' : next.run cs' = some (qs, last)) :
    place.run (cs ++ cs') = some (ps ++ qs, last) := by
  induction cs generalizing place ps with
  | nil =>
    cases h
    exact h'
  | cons c cs ih =>
    obtain ⟨rs, middle, us, hstep, hrun, rfl⟩ := run_cons.mp h
    rw [List.append_assoc]
    exact run_cons.mpr ⟨rs, middle, us ++ qs, hstep, ih hrun, rfl⟩

/-- Texts with a delimiter between them that is a piece of its own. -/
theorem pieces?_delimiter {cs cs' : List Char} {ps ps' : List Piece} {d : Char} {piece : Piece}
    (hd : isDelimiter d = true) (hstart : Place.start d = some ([piece], .between))
    (h : pieces? cs = some ps) (hps : ∀ p ∈ ps, p.isComment = false) (h' : pieces? cs' = some ps') :
    pieces? (cs ++ d :: cs') = some (ps ++ piece :: ps') := by
  obtain ⟨qs, place, rs, hrun, hfinish, rfl⟩ := pieces?_eq_some.mp h
  obtain ⟨qs', place', rs', hrun', hfinish', rfl⟩ := pieces?_eq_some.mp h'
  have hstep : place.step d = some (rs ++ [piece], .between) := by
    rw [Place.step_delimiter hfinish (fun p hp => hps p (List.mem_append_right _ hp)) hd, hstart]
    rfl
  have hrest : place.run (d :: cs') = some (rs ++ [piece] ++ qs', place') :=
    Place.run_cons.mpr ⟨_, _, _, hstep, hrun', rfl⟩
  refine pieces?_eq_some.mpr ⟨_, place', rs', Place.run_append hrun hrest, hfinish', ?_⟩
  simp

/-- A text that does not start with a semicolon still does not when
something other than one is put behind it. This keeps a parenthesis from
opening a comment. -/
theorem head?_append_cons {cs cs' : List Char} {d : Char} (h : cs.head? ≠ some ';')
    (hd : d ≠ ';') : (cs ++ d :: cs').head? ≠ some ';' := by
  cases cs with
  | nil => simpa using hd
  | cons c cs => exact h

namespace Sealed

variable {cs cs' : List Char} {ts ts' : List Token}

theorem nil : Sealed [] [] :=
  ⟨⟨[], rfl, rfl⟩, by simp⟩

/-- Two sealed texts are sealed with a blank between them. -/
theorem blank {d : Char} (hd : d = ' ' ∨ d = '\n') (h : Sealed cs ts) (h' : Sealed cs' ts') :
    Sealed (cs ++ d :: cs') (ts ++ ts') := by
  obtain ⟨⟨ps, hps, hts⟩, hhead⟩ := h
  obtain ⟨⟨ps', hps', hts'⟩, -⟩ := h'
  have hstart : isDelimiter d = true ∧ d ≠ ';'
      ∧ Place.start d = some ([.blank d], .between) := by
    rcases hd with rfl | rfl
    · exact ⟨rfl, by decide, rfl⟩
    · exact ⟨rfl, by decide, rfl⟩
  refine ⟨⟨_, pieces?_delimiter hstart.1 hstart.2.2 hps (isComment_of_filter hts) hps', ?_⟩,
    head?_append_cons hhead hstart.2.1⟩
  simp [hts, hts']

/-- Two sealed texts are sealed with a closing parenthesis between them. -/
theorem closing (h : Sealed cs ts) (h' : Sealed cs' ts') :
    Sealed (cs ++ ')' :: cs') (ts ++ .closing :: ts') := by
  obtain ⟨⟨ps, hps, hts⟩, hhead⟩ := h
  obtain ⟨⟨ps', hps', hts'⟩, -⟩ := h'
  have hstart : Place.start ')' = some ([.closing], .between) := rfl
  refine ⟨⟨_, pieces?_delimiter rfl hstart hps (isComment_of_filter hts) hps', ?_⟩,
    head?_append_cons hhead (by decide)⟩
  simp [hts, hts', Token.piece]

/-- A sealed text is sealed behind an opening parenthesis. -/
theorem opening (h : Sealed cs ts) : Sealed ('(' :: cs) (.opening :: ts) := by
  obtain ⟨⟨ps, hps, hts⟩, hhead⟩ := h
  have hopen : Place.between.step '(' = some ([], .opened) := rfl
  refine ⟨⟨.opening :: ps, ?_, by simp [hts, Token.piece]⟩, by simp⟩
  obtain ⟨qs, place, rs, hrun, hfinish, rfl⟩ := pieces?_eq_some.mp hps
  cases cs with
  | nil =>
    cases hrun
    cases hfinish
    rfl
  | cons c cs =>
    have hc : c ≠ ';' := by simpa using hhead
    obtain ⟨us, next, vs, hstep, hrest, rfl⟩ := Place.run_cons.mp hrun
    have hstart : Place.start c = some (us, next) := hstep
    have hopened : Place.opened.step c = some (.opening :: us, next) := by
      simp [Place.step, hc, Place.startBehind, hstart]
    have hboth := Place.run_cons.mpr ⟨_, _, _, hopened, hrest, rfl⟩
    exact pieces?_eq_some.mpr ⟨_, place, rs, Place.run_cons.mpr ⟨_, _, _, hopen, hboth, rfl⟩,
      hfinish, by simp⟩

theorem pad (n : Nat) (h : Sealed cs ts) : Sealed (List.replicate n ' ' ++ cs) ts := by
  induction n with
  | zero => exact h
  | succ n ih => exact nil.blank (.inl rfl) ih

end Sealed

-- ================================================================ words

theorem isTokenChar_of_isWordChar {c : Char} (h : isWordChar c = true) : isTokenChar c = true := by
  simp [isTokenChar, h]

theorem ne_of_isWordChar {c d : Char} (h : isWordChar c = true) (hd : isWordChar d = false) :
    c ≠ d := by
  intro heq
  rw [heq, hd] at h
  cases h

/-- Inside a word, word characters are held and end nothing. -/
theorem Place.run_word {chars cs : List Char} (h : ∀ c ∈ cs, isWordChar c = true) :
    (Place.token chars).run cs = some ([], .token (chars ++ cs)) := by
  induction cs generalizing chars with
  | nil => rw [List.append_nil]; rfl
  | cons c cs ih =>
    rw [List.forall_mem_cons] at h
    have hstep : (Place.token chars).step c = some ([], .token (chars ++ [c])) := by
      simp [step, tokenStep, not_isDelimiter h.1, ne_of_isWordChar h.1 (d := '"') (by decide),
        isTokenChar_of_isWordChar h.1]
    have hrun : (Place.token (chars ++ [c])).run cs = some ([], .token (chars ++ [c] ++ cs)) :=
      ih h.2
    rw [List.append_assoc] at hrun
    exact run_cons.mpr ⟨_, _, _, hstep, hrun, rfl⟩

theorem Place.start_word {c : Char} (h : isWordChar c = true) :
    start c = some ([], .token [c]) := by
  have hd := not_isDelimiter h
  simp only [isDelimiter, Bool.or_eq_false_iff, beq_eq_false_iff_ne] at hd
  simp [start, hd.1.1, hd.1.2, hd.2, ne_of_isWordChar h (d := ';') (by decide),
    ne_of_isWordChar h (d := '"') (by decide), isTokenChar_of_isWordChar h]

/-- A run that ends in a token makes one piece. -/
theorem Sealed.ofToken {s : Sexp} (hrun : Place.between.run s.text.toList
    = some ([], .token s.text.toList)) (hhead : s.text.toList.head? ≠ some ';') :
    Sealed s.text.toList [.atom s] :=
  ⟨⟨[.token s.text.toList], pieces?_eq_some.mpr ⟨_, _, _, hrun, rfl, rfl⟩, rfl⟩, hhead⟩

/-- A word is sealed: it is one token, wherever it stands. -/
theorem Sealed.word {t : String} (h : isWord t = true) :
    Sealed (Sexp.word t).text.toList [.atom (.word t)] := by
  have hrun : Place.between.run t.toList = some ([], .token t.toList)
      ∧ t.toList.head? ≠ some ';' := by
    rw [isWord, Bool.and_eq_true, List.all_eq_true] at h
    cases ht : t.toList with
    | nil => simp [ht] at h
    | cons c cs =>
      rw [ht, List.forall_mem_cons] at h
      refine ⟨Place.run_cons.mpr ⟨_, _, _, Place.start_word h.2.1, Place.run_word h.2.2, rfl⟩, ?_⟩
      simpa using ne_of_isWordChar h.2.1 (d := ';') (by decide)
  exact .ofToken hrun.1 hrun.2

-- =============================================================== quotes

/-- A byte that stands for itself between quotes. -/
theorem printable {b : UInt8} (hlow : 0x20 ≤ b) (hhigh : b ≤ 0x7E) :
    (Char.ofNat b.toNat).toNat = b.toNat
      ∧ String.utf8EncodeChar (Char.ofNat b.toNat) = [b] := by
  have hlow' : 32 ≤ b.toNat := UInt8.le_iff_toNat_le.mp hlow
  have hhigh' : b.toNat ≤ 126 := UInt8.le_iff_toNat_le.mp hhigh
  have hchar : (Char.ofNat b.toNat).toNat = b.toNat := by
    rw [Char.ofNat, dif_pos (Or.inl (by omega))]
    rfl
  have hval : (Char.ofNat b.toNat).val.toNat = b.toNat := hchar
  exact ⟨hchar, by rw [String.utf8EncodeChar, hval, if_pos (by omega), UInt8.ofNat_toNat]⟩

/-- A printable byte is the character with its number. -/
theorem ofNat_ne {b : UInt8} {c : Char} (hb : (Char.ofNat b.toNat).toNat = b.toNat)
    (hc : b ≠ UInt8.ofNat c.toNat) : Char.ofNat b.toNat ≠ c := by
  intro heq
  rw [heq] at hb
  exact hc (by rw [hb, UInt8.ofNat_toNat])

/-- The digits of a byte: each is a character that stands for itself,
and has its value. -/
theorem digitChar_spec {n : Nat} (h : n < 16) :
    hexValue? (Nat.digitChar n) = some n ∧ Nat.digitChar n ≠ '"' ∧ Nat.digitChar n ≠ '\\'
      ∧ 0x20 ≤ (Nat.digitChar n).toNat ∧ (Nat.digitChar n).toNat ≠ 0x7F := by
  interval_cases n <;> decide

/-- The ways in which a byte stands between quotes. It stands there as
itself, as an escape of two characters, or as two hexadecimal digits. -/
theorem stringByte_cases (b : UInt8) :
    (∃ e, (e = '"' ∨ e = '\\') ∧ UInt8.ofNat e.toNat = b ∧ stringByte b = ['\\', e])
      ∨ (∃ c, c ≠ '"' ∧ c ≠ '\\' ∧ 0x20 ≤ c.toNat ∧ c.toNat ≠ 0x7F
          ∧ String.utf8EncodeChar c = [b] ∧ stringByte b = [c])
      ∨ ∃ high low, high < 16 ∧ low < 16 ∧ UInt8.ofNat (16 * high + low) = b
          ∧ stringByte b = ['\\', Nat.digitChar high, Nat.digitChar low] := by
  unfold stringByte
  by_cases hmark : b = 0x22 ∨ b = 0x5C
  · rw [if_pos hmark]
    rcases hmark with rfl | rfl
    · exact .inl ⟨'"', .inl rfl, rfl, rfl⟩
    · exact .inl ⟨'\\', .inr rfl, rfl, rfl⟩
  rw [if_neg hmark]
  rw [not_or] at hmark
  by_cases hprint : 0x20 ≤ b ∧ b ≤ 0x7E
  · rw [if_pos hprint]
    obtain ⟨hchar, hbyte⟩ := printable hprint.1 hprint.2
    have hlow : 32 ≤ b.toNat := UInt8.le_iff_toNat_le.mp hprint.1
    have hhigh : b.toNat ≤ 126 := UInt8.le_iff_toNat_le.mp hprint.2
    exact .inr (.inl ⟨_, ofNat_ne hchar hmark.1, ofNat_ne hchar hmark.2, by omega, by omega, hbyte,
      rfl⟩)
  · rw [if_neg hprint]
    have hb : b.toNat < 256 := b.toNat_lt
    refine .inr (.inr ⟨b.toNat / 16, b.toNat % 16, by omega, by omega, ?_, rfl⟩)
    rw [Nat.div_add_mod, UInt8.ofNat_toNat]

/-- Inside a string, the characters that a byte is written in neither
end the string nor escape what follows. -/
theorem Place.run_stringByte (chars : List Char) (b : UInt8) :
    (Place.quoted chars).run (stringByte b) = some ([], .quoted (chars ++ stringByte b)) := by
  have hplain : ∀ (cs : List Char) (c : Char), c ≠ '"' → c ≠ '\\' → 0x20 ≤ c.toNat →
      c.toNat ≠ 0x7F → (Place.quoted cs).run [c] = some ([], .quoted (cs ++ [c])) := by
    intro cs c hquote hslash hlow hdelete
    simp [run, step, hquote, hslash, hlow, hdelete]
  have hescape : ∀ e, (Place.quoted chars).run ['\\', e]
      = some ([], .quoted (chars ++ ['\\', e])) := by
    intro e
    simp [run, step]
  rcases stringByte_cases b with ⟨e, -, -, hb⟩ | ⟨c, hquote, hslash, hlow, hdelete, -, hb⟩
    | ⟨high, low, -, hlow, -, hb⟩
  · rw [hb, hescape]
  · rw [hb, hplain chars c hquote hslash hlow hdelete]
  · obtain ⟨-, hquote, hslash, hlow, hdelete⟩ := digitChar_spec hlow
    have hdigits := run_append (hescape (Nat.digitChar high))
      (hplain _ (Nat.digitChar low) hquote hslash hlow hdelete)
    rw [List.append_assoc] at hdigits
    rw [hb]
    exact hdigits

/-- A quoted stretch ends at its own closing quote. -/
theorem Place.run_stringBytes (chars : List Char) (bytes : List UInt8) :
    (Place.quoted chars).run (bytes.flatMap stringByte ++ ['"'])
      = some ([], .token (chars ++ (bytes.flatMap stringByte ++ ['"']))) := by
  induction bytes generalizing chars with
  | nil => simp [run, step]
  | cons b bytes ih =>
    have hb := run_append (run_stringByte chars b) (ih (chars ++ stringByte b))
    simpa [List.append_assoc] using hb

/-- A byte is read back from its characters, plain or escaped. -/
theorem unquote?_stringByte (b : UInt8) (cs : List Char) :
    unquote? (stringByte b ++ cs) = (unquote? cs).map (b :: ·) := by
  rcases stringByte_cases b with ⟨e, he, hbyte, hb⟩ | ⟨c, hquote, hslash, -, -, hbyte, hb⟩
    | ⟨high, low, hhigh, hlow, hbyte, hb⟩
  · rw [hb, ← hbyte, List.cons_append, unquote?.eq_def]
    simp [he]
  · rw [hb, List.cons_append, unquote?.eq_def]
    simp [hquote, hslash, hbyte]
  · obtain ⟨hvalue, hquote, hslash, -⟩ := digitChar_spec hhigh
    obtain ⟨hvalue', -⟩ := digitChar_spec hlow
    rw [hb, ← hbyte, List.cons_append, unquote?.eq_def]
    simp [hquote, hslash, hvalue, hvalue']

/-- What was written between quotes is read back. -/
theorem unquote?_stringBytes (bytes : List UInt8) :
    unquote? (bytes.flatMap stringByte ++ ['"']) = some bytes := by
  induction bytes with
  | nil => rfl
  | cons b bytes ih => rw [List.flatMap_cons, List.append_assoc, unquote?_stringByte, ih]; rfl

theorem Sealed.string (bytes : List UInt8) :
    Sealed (Sexp.string bytes).text.toList [.atom (.string bytes)] := by
  have htext : (Sexp.string bytes).text.toList = '"' :: (bytes.flatMap stringByte ++ ['"']) := by
    simp [Sexp.text, stringText]
  have hrun := Place.run_stringBytes ['"'] bytes
  refine .ofToken ?_ (by simp [htext])
  rw [htext]
  exact Place.run_cons.mpr ⟨[], .quoted ['"'], [], rfl, hrun, rfl⟩

theorem Sealed.quoted (bytes : List UInt8) :
    Sealed (Sexp.quoted bytes).text.toList [.atom (.quoted bytes)] := by
  have htext : (Sexp.quoted bytes).text.toList
      = '$' :: '"' :: (bytes.flatMap stringByte ++ ['"']) := by
    simp [Sexp.text, stringText]
  have hrun := Place.run_stringBytes ['$', '"'] bytes
  have hquote : (Place.token ['$']).run ('"' :: (bytes.flatMap stringByte ++ ['"'])) = _ :=
    Place.run_cons.mpr ⟨[], .quoted ['$', '"'], [], rfl, hrun, rfl⟩
  refine .ofToken ?_ (by simp [htext])
  rw [htext]
  exact Place.run_cons.mpr ⟨[], .token ['$'], [], rfl, hquote, rfl⟩

-- ======================================================== s-expressions

/-- Whether an s-expression is an atom in quotes. -/
def Sexp.isQuotation : Sexp → Bool
  | string _ => true
  | quoted _ => true
  | _ => false

/-- An atom is read back from its text. The three kinds are told apart
by the first characters. -/
theorem atom?_text {s : Sexp} (h : s.hasWords = true) (hs : ∀ items, s ≠ .list items) :
    atom? s.text.toList = some s := by
  cases s with
  | word t =>
    have ht : isWord (String.ofList t.toList) = true := by rw [String.ofList_toList]; exact h
    rw [Sexp.text, atom?.eq_def, if_pos ht, String.ofList_toList]
  | string bytes =>
    have htext : (Sexp.string bytes).text.toList = '"' :: (bytes.flatMap stringByte ++ ['"']) := by
      simp [Sexp.text, stringText]
    have hword : ¬ isWord (String.ofList ('"' :: (bytes.flatMap stringByte ++ ['"']))) = true := by
      simp [isWord, isWordChar]
    rw [htext, atom?, if_neg hword]
    simp [unquote?_stringBytes]
  | quoted bytes =>
    have htext : (Sexp.quoted bytes).text.toList
        = '$' :: '"' :: (bytes.flatMap stringByte ++ ['"']) := by
      simp [Sexp.text, stringText]
    have hword : ¬ isWord (String.ofList ('$' :: '"' :: (bytes.flatMap stringByte ++ ['"'])))
        = true := by
      simp [isWord, isWordChar]
    rw [htext, atom?, if_neg hword]
    simp [unquote?_stringBytes]
  | list items => exact absurd rfl (hs items)

/-- Exactly the atoms in quotes have a quote in their text. -/
theorem quote_mem_text {s : Sexp} (h : s.hasWords = true) (hs : ∀ items, s ≠ .list items) :
    '"' ∈ s.text.toList ↔ s.isQuotation = true := by
  cases s with
  | word t =>
    have ht : isWord t = true := h
    rw [isWord, Bool.and_eq_true, List.all_eq_true] at ht
    have hquote : '"' ∉ t.toList := fun hmem => absurd (ht.2 _ hmem) (by decide)
    simpa [Sexp.text, Sexp.isQuotation] using hquote
  | string bytes => simp [Sexp.text, stringText, Sexp.isQuotation]
  | quoted bytes => simp [Sexp.text, stringText, Sexp.isQuotation]
  | list items => exact absurd rfl (hs items)

namespace Sexp

mutual

/-- The text of an expression is sealed and has the tokens of the
expression, by recursion over it. -/
theorem sealed_text : ∀ s : Sexp, hasWords s = true → Sealed s.text.toList s.tokens
  | word t, h => .word h
  | string bytes, _ => .string bytes
  | quoted bytes, _ => .quoted bytes
  | list items, h => by
    have hitems := sealed_texts items h
    rw [text, String.toList_append, String.toList_append]
    exact (hitems.closing .nil).opening

/-- The same for expressions with blanks between them. -/
theorem sealed_texts : ∀ ss : List Sexp, haveWords ss = true →
    Sealed (" ".intercalate (texts ss)).toList (tokensAll ss)
  | [], _ => .nil
  | [s], h => by
    rw [haveWords, Bool.and_eq_true] at h
    have hs := sealed_text s h.1
    rw [texts, texts, String.intercalate_singleton, tokensAll, tokensAll, List.append_nil]
    exact hs
  | s :: s' :: ss, h => by
    rw [haveWords, Bool.and_eq_true] at h
    have hs := sealed_text s h.1
    have hrest := sealed_texts (s' :: ss) h.2
    rw [texts] at hrest
    rw [texts, texts, String.intercalate_cons_cons, String.toList_append, String.toList_append,
      List.append_assoc]
    exact hs.blank (.inl rfl) hrest

end

end Sexp

namespace Document

mutual

/-- The text of a document is sealed before every sealed text, with
lines and indentation as blanks. -/
theorem sealed_text : ∀ (d : Document) (depth : Nat), d.sexp.hasWords = true →
    ∀ {cs ts}, Sealed cs ts → Sealed ((d.text depth).toList ++ cs) (d.sexp.tokens ++ ts)
  | line s, depth, h, cs, ts, hcs => by
    have hline := ((s.sealed_text h).blank (.inr rfl) hcs).pad (2 * depth)
    rw [text, Document.pad, String.toList_append, String.toList_append, String.toList_ofList,
      List.append_assoc, List.append_assoc]
    exact hline
  | group head body, depth, h, cs, ts, hcs => by
    have hwords : Sexp.haveWords (head ++ sexps body) = true := h
    rw [Sexp.haveWords_iff, List.forall_mem_append, ← Sexp.haveWords_iff,
      ← Sexp.haveWords_iff] at hwords
    have hhead := Sexp.sealed_texts head hwords.1
    have hend := (Sealed.nil.closing (Sealed.nil.blank (.inr rfl) hcs)).pad (2 * depth)
    have hbody := sealed_texts body (depth + 1) hwords.2 hend
    have hall := (hhead.blank (.inr rfl) hbody).opening.pad (2 * depth)
    rw [sexp, Sexp.tokens, Sexp.tokensAll_append]
    simp only [text, Document.pad, String.toList_append, String.toList_ofList]
    simpa [List.append_assoc] using hall

theorem sealed_texts : ∀ (ds : List Document) (depth : Nat), Sexp.haveWords (sexps ds) = true →
    ∀ {cs ts}, Sealed cs ts →
      Sealed ((texts depth ds).toList ++ cs) (Sexp.tokensAll (sexps ds) ++ ts)
  | [], _, _, _, _, hcs => hcs
  | d :: ds, depth, h, cs, ts, hcs => by
    rw [sexps, Sexp.haveWords, Bool.and_eq_true] at h
    have hrest := sealed_texts ds depth h.2 hcs
    rw [texts, String.toList_append, List.append_assoc, sexps, Sexp.tokensAll, List.append_assoc]
    exact sealed_text d depth h.1 hrest

end

end Document

end CallFlow.Wat
