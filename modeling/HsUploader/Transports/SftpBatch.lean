import HsUploader.Library.Joined
import HsUploader.Library.Publish
import HsUploader.PyValue

/-!
# Batches for `sftp`

Three transports hand `sftp -b -` a text of lines, each of which puts, renames or removes a file or
makes a directory.  One writes every path between double quotes (`quoted`), the others write them as
they are.

The program and the server are no part of the repository.  A call of `sftp` is therefore any
function of the batch and the server's tree, and `Documented` says what is relied on of it: how a
line is taken apart into words (`words`), which line of a session it is (`readLine`), and what comes
of playing the session (`Connection.play`, which `documented_play` shows to be such a call).

Nothing is relied on where the documentation says nothing, or other things:

* single quotes, backslashes, wildcards outside quotes and options of a command: `readLine` answers
  `none`, and `Connection.play` leaves open what comes of the batch;
* a line that is longer than what `sftp` reads at a time, or a byte that is zero (`Whole`);
* a path that another path stands for too (`Tidy`);
* a directory in the place of a file, into which a `put` would write and which a `rename` would move
  (`Fitting`).

What is read is what was meant (`readAs_put` and the lemmas beside it, `linesOf_joined`), for paths
that hold no quote, backslash or end of a line (`Quotable`), or no blank either where there are no
quotes around them (`Plain`).
-/

set_option autoImplicit false

namespace HsUploader.Sftp

open Transfer

/-! ## How a line is read -/

/-- Where the reader of a line is: between two words, in a word, or between double quotes. -/
inductive Place where
  | between
  | bare
  | inQuotes
  deriving DecidableEq

/-- `isspace(c)`. -/
def isSpace (c : PyChar) : Bool :=
  c ∈ ([' ', '\t', '\n', '\x0b', '\x0c', '\r'].map .scalar : List PyChar)

/-- Letters that outside quotes stand for something else. -/
def isSpecial (c : PyChar) : Bool := c ∈ (['\'', '\\', '*', '?', '['].map .scalar : List PyChar)

/-- The words of a line, `word` being what has been read of the one it is in. -/
def words : Place → PyText → PyText → Option (List PyText)
  | .between, _, [] => some []
  | .bare, word, [] => some [word]
  | .inQuotes, _, [] => none
  | .inQuotes, word, c :: cs =>
    if c = .scalar '"' then words .bare word cs
    else if c = .scalar '\\' then none
    else words .inQuotes (word ++ [c]) cs
  | .between, _, c :: cs =>
    if c = .scalar '"' then words .inQuotes [] cs
    else if isSpace c then words .between [] cs
    else if c = .scalar '#' then some []
    else if isSpecial c then none
    else words .bare [c] cs
  | .bare, word, c :: cs =>
    if c = .scalar '"' then words .inQuotes word cs
    else if isSpace c then (words .between [] cs).map (word :: ·)
    else if c = .scalar '#' then some [word]
    else if isSpecial c then none
    else words .bare (word ++ [c]) cs

/-- What a line of a batch is. -/
inductive Read where
  | line (l : Line PyText UInt8)
  | quit
  | blank

/-- The word is an option. -/
def isOption (word : PyText) : Bool := word.head? = some (.scalar '-')

/-- What the words of a line ask for. -/
def readOp (content : PyText → Option Bytes) (tolerant : Bool) : List PyText → Option Read
  | [] => some .blank
  | [command] => if command = .ofString "quit" then some .quit else none
  | [command, path] =>
    if isOption path then none
    else if command = .ofString "mkdir" then some (.line ⟨tolerant, .makeDir path⟩)
    else if command = .ofString "rm" then some (.line ⟨tolerant, .remove path⟩)
    else none
  | [command, first, second] =>
    if isOption first || isOption second then none
    else if command = .ofString "put" then some (.line ⟨tolerant, .put (content first) second⟩)
    else if command = .ofString "rename" then some (.line ⟨tolerant, .rename first second⟩)
    else none
  | _ => none

/-- A line of a batch; one that starts with a dash may fail. -/
def readLine (content : PyText → Option Bytes) (s : PyText) : Option Read :=
  if isOption s then (words .between [] s.tail).bind (readOp content true)
  else (words .between [] s).bind (readOp content false)

/-- The lines up to `quit`. -/
def readBatch (content : PyText → Option Bytes) : List PyText → Option (List (Line PyText UInt8))
  | [] => some []
  | s :: rest => match readLine content s with
    | some (.line l) => (readBatch content rest).map (l :: ·)
    | some .quit => some []
    | some .blank => readBatch content rest
    | none => none

/-! ## One call of `sftp` -/

/-- How a call of `sftp` ends: with an exit code, by the time limit, or not even begun. -/
inductive Ending where
  | exited
  | timedOut
  | notFound
  deriving DecidableEq

/-- What the caller of `subprocess.run` sees. -/
inductive Completed where
  | exited (code : ℤ) (output : PyText)
  | timedOut
  | notFound

/-- What happens during one call of `sftp`: what comes between it and its lines, how it ends, the
code it has for a failure and what it prints. -/
structure Connection where
  faults : ℕ → Fault
  ending : Ending
  code : ℤ
  code_ne : code ≠ 0
  output : PyText
  /-- What becomes of a batch that is not read here. -/
  otherwise : Bytes → Tree PyText UInt8 → Tree PyText UInt8 × Completed

/-- A server that finds the directory of a path before its last slash. -/
def textServer (replaces : Bool) : Server PyText where
  parent p := if .scalar '/' ∈ p then
    some (p.reverse.dropWhile fun c ↦ c ≠ .scalar '/').tail.reverse else none
  replaces := replaces

theorem parent_textServer (replaces : Bool) (dir : PyText) {leaf : PyText}
    (h : PyChar.scalar '/' ∉ leaf) :
    (textServer replaces).parent (dir ++ [.scalar '/'] ++ leaf) = some dir := by
  have hmem : PyChar.scalar '/' ∈ dir ++ [.scalar '/'] ++ leaf := by simp
  have hleaf : ∀ c ∈ leaf.reverse, decide (c ≠ .scalar '/') = true := by
    intro c hc
    rw [decide_eq_true_eq]
    rintro rfl
    exact h (List.mem_reverse.mp hc)
  have hdrop : (dir ++ [PyChar.scalar '/'] ++ leaf).reverse.dropWhile
      (fun c ↦ c ≠ PyChar.scalar '/') = PyChar.scalar '/' :: dir.reverse := by
    rw [List.reverse_append, List.dropWhile_append_of_pos hleaf]
    simp
  simp only [textServer, hmem, if_true, hdrop, List.tail_cons, List.reverse_reverse]

/-- A call with nothing between it and its lines. -/
def Connection.Quiet (c : Connection) : Prop := c.faults = Server.quiet ∧ c.ending = .exited

/-- The lines of a batch. -/
def linesOf (content : PyText → Option Bytes) (batch : Bytes) : Option (List (Line PyText UInt8)) :=
  match PyText.decode batch with
  | .ok text => readBatch content (text.splitOn (.scalar '\n'))
  | .error _ => none

/-- One call of `sftp` with a batch. -/
def Connection.play (c : Connection) (srv : Server PyText) (content : PyText → Option Bytes)
    (batch : Bytes) (t : Tree PyText UInt8) : Tree PyText UInt8 × Completed :=
  match c.ending with
  | .notFound => (t, .notFound)
  | ending => match linesOf content batch with
    | none => c.otherwise batch t
    | some ls =>
      let (t', succeeded) := srv.session c.faults ls t
      (t', if ending = .timedOut then .timedOut
        else .exited (if succeeded then 0 else c.code) c.output)

/-- A call that loses the connection when its second line has written a file in part. -/
def lostCall : Connection where
  faults i := if i = 1 then .cut (some 1) else .none
  ending := .exited
  code := 255
  code_ne h := by cases h
  output := .ofString "Connection closed"
  otherwise _ t := (t, .notFound)

/-- A call that nothing comes between. -/
def quietCall : Connection where
  faults := Server.quiet
  ending := .exited
  code := 1
  code_ne h := by cases h
  output := []
  otherwise _ t := (t, .notFound)

/-! ## What is relied on -/

/-- `sftp` takes the lines of a batch whole: it reads them into 2048 bytes, and a byte that is zero
ends a line. -/
structure Whole (batch : Bytes) : Prop where
  noZero : 0 ∉ batch
  short : ∀ line, line <:+: batch → 10 ∉ line → line.length < 2047

theorem whole_of_length {batch : Bytes} (hzero : 0 ∉ batch) (h : batch.length < 2047) :
    Whole batch where
  noZero := hzero
  short _ hline _ := hline.length_le.trans_lt h

/-- The path starts where the session does, and no part of it is empty, a dot or two dots, so that
it is the one path of its place. -/
def Tidy (p : PyText) : Prop := ∀ part ∈ p.splitOn (.scalar '/'),
  part ≠ [] ∧ part ≠ PyText.ofString "." ∧ part ≠ PyText.ofString ".."

instance (p : PyText) : Decidable (Tidy p) := List.decidableBAll _ _

/-- **What `sftp` and a server that keeps no links document**, of a batch that can be read and for
whose lines the tree has a place: the lines are played one after the other, each does to the tree
what it says, comes to nothing or is cut short, the first that fails and may not ends the batch, and
the code is zero exactly where none did.  In an undisturbed call nothing comes between. -/
def Documented (undisturbed : Prop) (replaces : Bool) (content : PyText → Option Bytes)
    (sftp : Bytes → Tree PyText UInt8 → Tree PyText UInt8 × Completed) : Prop :=
  ∀ batch ls t, linesOf content batch = some ls → Whole batch →
    (∀ l ∈ ls, ∀ p ∈ l.op.touched, Tidy p) → Fitting ls t →
      ∃ c : Connection, (undisturbed → c.Quiet) ∧
        sftp batch t = c.play (textServer replaces) content batch t

/-- A call that does just that. -/
theorem documented_play {undisturbed : Prop} (c : Connection) (h : undisturbed → c.Quiet)
    (replaces : Bool) (content : PyText → Option Bytes) :
    Documented undisturbed replaces content (c.play (textServer replaces) content) :=
  fun _ _ _ _ _ _ _ ↦ ⟨c, h, rfl⟩

theorem Connection.play_cases {c : Connection} {srv : Server PyText} {batch : Bytes}
    {content : PyText → Option Bytes} {ls : List (Line PyText UInt8)} {t t' : Tree PyText UInt8}
    {completed : Completed} (hread : linesOf content batch = some ls)
    (h : c.play srv content batch t = (t', completed)) :
    (t' = t ∨ t' = (srv.session c.faults ls t).1) ∧
    ∀ output, completed = .exited 0 output →
      t' = (srv.session c.faults ls t).1 ∧ (srv.session c.faults ls t).2 = true := by
  simp only [Connection.play, hread] at h
  cases hending : c.ending with
  | notFound =>
    simp only [hending] at h
    obtain ⟨rfl, rfl⟩ := Prod.mk.inj h
    exact ⟨.inl rfl, fun output ho ↦ by cases ho⟩
  | timedOut =>
    simp only [hending] at h
    obtain ⟨rfl, rfl⟩ := Prod.mk.inj h
    exact ⟨.inr rfl, fun output ho ↦ by cases ho⟩
  | exited =>
    simp only [hending] at h
    obtain ⟨rfl, rfl⟩ := Prod.mk.inj h
    refine ⟨.inr rfl, fun output ho ↦ ⟨rfl, ?_⟩⟩
    have hcode := (Completed.exited.inj ho).1
    cases hok : (srv.session c.faults ls t).2 with
    | true => rfl
    | false =>
      rw [hok] at hcode
      exact absurd hcode c.code_ne

/-! ## What is read in the output -/

/-- `re.I`: letters that are told apart by their case only, or fold to one another. -/
def foldCase : PyChar → PyChar
  | .scalar c =>
    if c.toNat = 8490 then .scalar 'k'
    else if c.toNat = 383 then .scalar 's'
    else if c.toNat = 304 ∨ c.toNat = 305 then .scalar 'i'
    else .scalar c.toLower
  | c => c

/-- The text stands in a line. -/
def occurs (text : String) (line : PyText) : Bool := decide (PyText.ofString text <:+: line)

/-- `_HOST_KEY_ERR.search(out)`. -/
def hostKeyErr (out : PyText) : Bool :=
  let lines := (out.map foldCase).splitOn (.scalar '\n')
  lines.any fun line ↦
    occurs "remote host identification has changed" line ||
    occurs "host key verification failed" line ||
    line.tails.any fun rest ↦ (PyText.ofString "host key").isPrefixOf rest &&
      occurs "has changed" (rest.drop 8)

/-! ## What the transports write -/

/-- `"\n".join(lines) + "\n"`. -/
def joined (lines : List PyText) : PyText :=
  List.intercalate [.scalar '\n'] lines ++ [.scalar '\n']

/-- `f'"{path}"'`. -/
def quoted (path : PyText) : PyText := [.scalar '"'] ++ path ++ [.scalar '"']

/-- A path that is read as it is between double quotes. -/
structure Quotable (s : PyText) : Prop where
  letters : ∀ c ∈ s, c ≠ .scalar '"' ∧ c ≠ .scalar '\\' ∧ c ≠ .scalar '\n'
  noOption : isOption s = false

/-- A path that is read as it is without quotes. -/
structure Plain (s : PyText) : Prop where
  ne : s ≠ []
  letters : ∀ c ∈ s, c ≠ .scalar '"' ∧ isSpace c = false ∧ c ≠ .scalar '#' ∧ isSpecial c = false
  noOption : isOption s = false

theorem words_inQuotes {s : PyText} (h : ∀ c ∈ s, c ≠ .scalar '"' ∧ c ≠ .scalar '\\' ∧
    c ≠ .scalar '\n') (word rest : PyText) :
    words .inQuotes word (s ++ .scalar '"' :: rest) = words .bare (word ++ s) rest := by
  induction s generalizing word with
  | nil => rw [List.nil_append, words, if_pos rfl, List.append_nil]
  | cons c s ih =>
    rw [List.forall_mem_cons] at h
    rw [List.cons_append, words, if_neg h.1.1, if_neg h.1.2.1, ih h.2, List.append_assoc,
      List.singleton_append]

theorem words_bare {s : PyText} (h : ∀ c ∈ s, c ≠ .scalar '"' ∧ isSpace c = false ∧
    c ≠ .scalar '#' ∧ isSpecial c = false) (word rest : PyText) :
    words .bare word (s ++ rest) = words .bare (word ++ s) rest := by
  induction s generalizing word with
  | nil => rw [List.nil_append, List.append_nil]
  | cons c s ih =>
    rw [List.forall_mem_cons] at h
    obtain ⟨⟨hquote, hspace, hhash, hspecial⟩, hs⟩ := h
    rw [List.cons_append, words, if_neg hquote, if_neg (by simp [hspace]), if_neg hhash,
      if_neg (by simp [hspecial]), ih hs, List.append_assoc, List.singleton_append]

/-- A path between quotes is one word. -/
theorem words_quoted {s : PyText} (h : Quotable s) (rest : PyText) :
    words .between [] (quoted s ++ rest) = words .bare s rest := by
  rw [quoted, List.append_assoc, List.append_assoc, List.singleton_append, words, if_pos rfl,
    List.singleton_append, words_inQuotes h.letters, List.nil_append]

/-- A word without quotes. -/
theorem words_plain {s : PyText} (h : Plain s) (rest : PyText) :
    words .between [] (s ++ rest) = words .bare s rest := by
  obtain ⟨c, s, rfl⟩ := List.exists_cons_of_ne_nil h.ne
  have hletters := h.letters
  rw [List.forall_mem_cons] at hletters
  obtain ⟨⟨hquote, hspace, hhash, hspecial⟩, hs⟩ := hletters
  rw [List.cons_append, words, if_neg hquote, if_neg (by simp [hspace]), if_neg hhash,
    if_neg (by simp [hspecial]), words_bare hs, List.singleton_append]

/-- A blank ends a word. -/
theorem words_space (word rest : PyText) :
    words .bare word (.scalar ' ' :: rest) = (words .between [] rest).map (word :: ·) := by
  rw [words, if_neg (by decide), if_pos (by decide)]

/-- How a path is written: between quotes or as it is. -/
inductive Writing where
  | quotes
  | asIs

/-- The text of a path. -/
def Writing.text : Writing → PyText → PyText
  | .quotes, path => quoted path
  | .asIs, path => path

/-- A path that is read as it was meant. -/
def Writing.Legible : Writing → PyText → Prop
  | .quotes, path => Quotable path
  | .asIs, path => Plain path

theorem Writing.noOption {w : Writing} {path : PyText} (h : w.Legible path) :
    isOption path = false := by
  cases w with
  | quotes => exact h.noOption
  | asIs => exact h.noOption

theorem Writing.words_text {w : Writing} {path : PyText} (h : w.Legible path) (rest : PyText) :
    words .between [] (w.text path ++ rest) = words .bare path rest := by
  cases w with
  | quotes => exact words_quoted h rest
  | asIs => exact words_plain h rest

theorem Writing.words_last {w : Writing} {path : PyText} (h : w.Legible path) :
    words .between [] (w.text path) = some [path] := by
  have hwords := words_text h []
  rw [List.append_nil] at hwords
  rw [hwords, words]

theorem Writing.newline_not_mem {w : Writing} {path : PyText} (h : w.Legible path) :
    PyChar.scalar '\n' ∉ w.text path := by
  intro hmem
  cases w with
  | quotes =>
    rw [Writing.text, quoted, List.append_assoc, List.singleton_append, List.mem_cons,
      List.mem_append, List.mem_singleton] at hmem
    rcases hmem with heq | hpath | heq
    · cases heq
    · exact (h.letters _ hpath).2.2 rfl
    · cases heq
  | asIs => exact absurd (h.letters _ hmem).2.1 (by decide)

/-! ## Lines of a transport -/

/-- `command path`. -/
def oneWord (command : String) (w : Writing) (path : PyText) : PyText :=
  .ofString command ++ .ofString " " ++ w.text path

/-- `command first second`. -/
def twoWords (command : String) (w : Writing) (first second : PyText) : PyText :=
  .ofString command ++ .ofString " " ++ w.text first ++ .ofString " " ++ w.text second

/-- The text is read as the line, and is one line. -/
structure ReadAs (content : PyText → Option Bytes) (s : PyText) (l : Line PyText UInt8) : Prop where
  read : readLine content s = some (.line l)
  oneLine : PyChar.scalar '\n' ∉ s

variable {content : PyText → Option Bytes} {w : Writing}

theorem words_command {command : String} (h : Plain (.ofString command)) {w : Writing}
    {path : PyText} (hpath : w.Legible path) (rest : PyText) :
    words .between [] (oneWord command w path ++ rest) =
      (words .bare path rest).map (.ofString command :: ·) := by
  rw [oneWord, List.append_assoc, List.append_assoc, words_plain h]
  have hspace : PyText.ofString " " = [.scalar ' '] := rfl
  rw [hspace, List.singleton_append, words_space, Writing.words_text hpath]

theorem words_oneWord {command : String} (h : Plain (.ofString command)) {path : PyText}
    (hpath : w.Legible path) :
    words .between [] (oneWord command w path) = some [.ofString command, path] := by
  have hwords := words_command h hpath []
  rw [List.append_nil] at hwords
  rw [hwords, words, Option.map_some]

theorem words_twoWords {command : String} (h : Plain (.ofString command)) {first second : PyText}
    (hfirst : w.Legible first) (hsecond : w.Legible second) :
    words .between [] (twoWords command w first second) =
      some [.ofString command, first, second] := by
  have heq : twoWords command w first second =
      oneWord command w first ++ (.scalar ' ' :: w.text second) := by
    rw [twoWords, oneWord, List.append_assoc]
    rfl
  rw [heq, words_command h hfirst, words_space, Writing.words_last hsecond]
  rfl

theorem isOption_append {s rest : PyText} (h : s ≠ []) : isOption (s ++ rest) = isOption s := by
  obtain ⟨c, s, rfl⟩ := List.exists_cons_of_ne_nil h
  rfl

theorem plain_part {s : PyText} (h : Plain s) : Plain (s ++ .ofString ".part") where
  ne hnil := h.ne (List.append_eq_nil_iff.mp hnil).1
  letters := by
    intro c hc
    rcases List.mem_append.mp hc with hc | hc
    · exact h.letters c hc
    · have hpart : ∀ c ∈ PyText.ofString ".part",
          c ≠ .scalar '"' ∧ isSpace c = false ∧ c ≠ .scalar '#' ∧ isSpecial c = false := by decide
      exact hpart c hc
  noOption := by
    rw [isOption_append h.ne]
    exact h.noOption

theorem newline_not_mem_oneWord {command : String}
    (h : PyChar.scalar '\n' ∉ PyText.ofString command)
    {path : PyText} (hpath : w.Legible path) : PyChar.scalar '\n' ∉ oneWord command w path := by
  rw [oneWord, List.mem_append, List.mem_append]
  rintro ((hmem | hmem) | hmem)
  · exact h hmem
  · exact absurd hmem (by decide)
  · exact Writing.newline_not_mem hpath hmem

theorem newline_not_mem_twoWords {command : String}
    (h : PyChar.scalar '\n' ∉ PyText.ofString command) {first second : PyText}
    (hfirst : w.Legible first) (hsecond : w.Legible second) :
    PyChar.scalar '\n' ∉ twoWords command w first second := by
  rw [twoWords, List.mem_append, List.mem_append]
  rintro ((hmem | hmem) | hmem)
  · exact newline_not_mem_oneWord h hfirst hmem
  · exact absurd hmem (by decide)
  · exact Writing.newline_not_mem hsecond hmem

theorem readLine_twoWords {command : String} (h : Plain (.ofString command)) {first second : PyText}
    (hfirst : w.Legible first) (hsecond : w.Legible second) :
    readLine content (twoWords command w first second) =
      readOp content false [.ofString command, first, second] := by
  have hopt : isOption (twoWords command w first second) = false := by
    rw [twoWords, List.append_assoc, List.append_assoc, List.append_assoc, isOption_append h.ne]
    exact h.noOption
  rw [readLine, hopt, if_neg Bool.false_ne_true, words_twoWords h hfirst hsecond, Option.bind_some]

/-- A line that starts with a dash. -/
theorem readLine_dash {command : String} (h : Plain (.ofString command)) {path : PyText}
    (hpath : w.Legible path) :
    readLine content (.scalar '-' :: oneWord command w path) =
      readOp content true [.ofString command, path] := by
  rw [readLine, isOption, List.head?_cons, if_pos (by decide), List.tail_cons,
    words_oneWord h hpath, Option.bind_some]

/-- `put local dest`. -/
theorem readAs_put {path dest : PyText} (hpath : w.Legible path) (hdest : w.Legible dest) :
    ReadAs content (twoWords "put" w path dest) ⟨false, .put (content path) dest⟩ where
  read := by
    rw [readLine_twoWords ⟨by decide, by decide, by decide⟩ hpath hdest, readOp,
      Writing.noOption hpath, Writing.noOption hdest]
    rfl
  oneLine := newline_not_mem_twoWords (by decide) hpath hdest

/-- `rename src dest`. -/
theorem readAs_rename {src dest : PyText} (hsrc : w.Legible src) (hdest : w.Legible dest) :
    ReadAs content (twoWords "rename" w src dest) ⟨false, .rename src dest⟩ where
  read := by
    rw [readLine_twoWords ⟨by decide, by decide, by decide⟩ hsrc hdest, readOp,
      Writing.noOption hsrc, Writing.noOption hdest]
    rfl
  oneLine := newline_not_mem_twoWords (by decide) hsrc hdest

theorem newline_not_mem_dash {s : PyText} (h : PyChar.scalar '\n' ∉ s) :
    PyChar.scalar '\n' ∉ (.scalar '-' :: s : PyText) := by
  rw [List.mem_cons]
  rintro (heq | hmem)
  · cases heq
  · exact h hmem

/-- `-mkdir path`. -/
theorem readAs_mkdir {path : PyText} (hpath : w.Legible path) :
    ReadAs content (.scalar '-' :: oneWord "mkdir" w path) ⟨true, .makeDir path⟩ where
  read := by
    rw [readLine_dash ⟨by decide, by decide, by decide⟩ hpath, readOp, Writing.noOption hpath]
    rfl
  oneLine := newline_not_mem_dash (newline_not_mem_oneWord (by decide) hpath)

/-- `-rm path`. -/
theorem readAs_rm {path : PyText} (hpath : w.Legible path) :
    ReadAs content (.scalar '-' :: oneWord "rm" w path) ⟨true, .remove path⟩ where
  read := by
    rw [readLine_dash ⟨by decide, by decide, by decide⟩ hpath, readOp, Writing.noOption hpath]
    rfl
  oneLine := newline_not_mem_dash (newline_not_mem_oneWord (by decide) hpath)

/-! ## Whole batches -/

theorem readAs_flatMap {α : Type} {f : α → List PyText}
    {g : α → List (Line PyText UInt8)} {xs : List α}
    (h : ∀ x ∈ xs, List.Forall₂ (ReadAs content) (f x) (g x)) :
    List.Forall₂ (ReadAs content) (xs.flatMap f) (xs.flatMap g) := by
  induction xs with
  | nil => exact .nil
  | cons x xs ih =>
    rw [List.forall_mem_cons] at h
    rw [List.flatMap_cons, List.flatMap_cons]
    exact List.rel_append h.1 (ih h.2)

theorem readAs_map {α : Type} {f : α → PyText}
    {g : α → Line PyText UInt8} {xs : List α} (h : ∀ x ∈ xs, ReadAs content (f x) (g x)) :
    List.Forall₂ (ReadAs content) (xs.map f) (xs.map g) := by
  rw [List.forall₂_map_left_iff, List.forall₂_map_right_iff, List.forall₂_same]
  exact h

theorem readBatch_append {texts rest : List PyText} {ls : List (Line PyText UInt8)}
    (h : List.Forall₂ (ReadAs content) texts ls) :
    readBatch content (texts ++ rest) = (readBatch content rest).map (ls ++ ·) := by
  induction h with
  | nil =>
    rw [List.nil_append]
    exact Option.map_id'.symm
  | cons hread _ ih =>
    rw [List.cons_append, readBatch, hread.read]
    dsimp only
    rw [ih, Option.map_map]
    rfl

theorem newline_not_mem_of_readAs {texts : List PyText} {ls : List (Line PyText UInt8)}
    (h : List.Forall₂ (ReadAs content) texts ls) : ∀ s ∈ texts, PyChar.scalar '\n' ∉ s := by
  induction h with
  | nil => exact fun s hs ↦ absurd hs List.not_mem_nil
  | cons hread _ ih => exact List.forall_mem_cons.mpr ⟨hread.oneLine, ih⟩

theorem splitOn_joined {lines : List PyText} (h : ∀ s ∈ lines, PyChar.scalar '\n' ∉ s)
    (hne : lines ≠ []) : (joined lines).splitOn (.scalar '\n') = lines ++ [[]] := by
  rw [joined, ← Joined.intercalate_concat hne, List.splitOn_intercalate _ _ (by simp)]
  intro s hs
  rcases List.mem_append.mp hs with hs | hs
  · exact h s hs
  · rw [List.mem_singleton.mp hs]
    exact List.not_mem_nil

/-- **What is read is what was meant**: lines that are read as they were meant, and `quit` after
them or nothing. -/
theorem linesOf_joined {texts : List PyText} {ls : List (Line PyText UInt8)} {batch : Bytes}
    (h : List.Forall₂ (ReadAs content) texts ls) {last : List PyText}
    (hlast : last = [] ∨ last = [.ofString "quit"]) (hne : texts ++ last ≠ [])
    (hbatch : PyText.encode (joined (texts ++ last)) = .ok batch) :
    linesOf content batch = some ls := by
  have hlines : ∀ s ∈ texts ++ last, PyChar.scalar '\n' ∉ s := by
    intro s hs
    rcases List.mem_append.mp hs with hs | hs
    · exact newline_not_mem_of_readAs h s hs
    · rcases hlast with rfl | rfl
      · exact absurd hs List.not_mem_nil
      · rw [List.mem_singleton.mp hs]
        decide
  rw [linesOf, PyText.decode_encode hbatch]
  dsimp only
  rw [splitOn_joined hlines hne, List.append_assoc, readBatch_append h]
  rcases hlast with rfl | rfl
  · simp [readBatch, readLine, isOption, words, readOp]
  · have hquit : readLine content (.ofString "quit") = some .quit := rfl
    rw [List.singleton_append, readBatch, hquit]
    simp

end HsUploader.Sftp
