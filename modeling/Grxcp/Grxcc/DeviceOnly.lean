import Grxcp.Grxcc.Launches
import Grxcp.Grxcc.DeviceVars

/-!
# Code for the device only

`find_device_only`: the spans of a file that are dropped from the host pass. With `find_device_vars` it tells
device variables from device functions, as the file declares them, just where no round bracket behind the marks
of a variable makes it look like a function, a function has no brace and no semicolon before its body, and
the marks stand on the line on which the declaration starts (`told_iff`).
-/

namespace Grxcp.Grxcc

/-! ## Finding spans -/

structure Span where
  start : ℕ
  stop : ℕ

/-- The characters at which the search for the start of a declaration stops. -/
def boundary (c : Char) : Bool :=
  c == ';' || c == '{' || c == '}' || c == '\n'

/-- The walk back over lines: what is before the start, last character first. -/
def walkBack (before : List Char) : List Char :=
  if before = [] then []
  else
    let prev := trim (before.takeWhile (· ≠ '\n')).reverse
    if h : prev = [] ∨ prev.getLast? = some ';' ∨ prev.getLast? = some '}' ∨ prev.getLast? = some '{' ∨
        prev.head? = some '#' ∨ "//".toList <+: prev then before
    else walkBack (before.dropWhile (· ≠ '\n'))
termination_by before.length
decreasing_by
  rcases hline : before.takeWhile (· ≠ '\n') with _ | ⟨c, line⟩
  · have hnil : prev = [] := by
      show trim (before.takeWhile (· ≠ '\n')).reverse = []
      rw [hline]
      rfl
    exact absurd (.inl hnil) h
  · have hlength := congrArg List.length (List.takeWhile_append_dropWhile (p := (· ≠ '\n')) (l := before))
    rw [hline, List.length_append, List.length_cons] at hlength
    omega

/-- What is before the declaration of a mark. -/
def declStart (before : List Char) : List Char :=
  walkBack (before.dropWhile fun c => !boundary c)

/-- The declaration up to the mark. -/
def headOf (before : List Char) : List Char :=
  (before.take (before.length - (declStart before).length)).reverse

def hostWord : List Char :=
  "__host__".toList

def globalWord : List Char :=
  "__global__".toList

/-- The declaration is for the host too, or is a kernel. -/
def forHost (before : List Char) : Bool :=
  (find hostWord (headOf before)).isSome || (find globalWord (headOf before)).isSome

/-- The loop that looks for the end of a function: how far it is. -/
def onlyEnd (isFunction : Bool) (before text : List Char) : Option ℕ :=
  match text with
  | [] => none
  | c :: rest =>
    let k := skipNoncode before (c :: rest)
    if k ≠ 0 then (onlyEnd isFunction (((c :: rest).take k).reverse ++ before) ((c :: rest).drop k)).map (k + ·)
    else if c = '(' then (onlyEnd true (c :: before) rest).map (1 + ·)
    else if c = '{' then if isFunction then matchBracket before (c :: rest) else none
    else if c = ';' then if isFunction then some 1 else none
    -- ten characters are compared with a word of eight
    else if (c :: rest).take 10 = hostWord then none
    else (onlyEnd isFunction (c :: before) rest).map (1 + ·)
termination_by text.length
decreasing_by
  · simp only [List.length_drop, List.length_cons]
    omega
  · exact Nat.lt_succ_self _
  · exact Nat.lt_succ_self _

/-- The loop of `find_device_only`, from a position on. -/
def spansFrom (before text : List Char) : List Span :=
  match text with
  | [] => []
  | c :: rest =>
    let k := skipNoncode before (c :: rest)
    if k ≠ 0 then spansFrom (((c :: rest).take k).reverse ++ before) ((c :: rest).drop k)
    else if wordAt Mark.device.word before (c :: rest) = false then spansFrom (c :: before) rest
    else
      let past := Mark.device.word.reverse ++ before
      let behind := (c :: rest).drop Mark.device.word.length
      if forHost before then spansFrom past behind
      else
        match onlyEnd false past behind with
        | none => spansFrom past behind
        | some n => ⟨(declStart before).length, past.length + n⟩ ::
            spansFrom ((behind.take n).reverse ++ past) (behind.drop n)
termination_by text.length
decreasing_by
  all_goals have hword := List.length_pos_of_ne_nil (word_ne_nil Mark.device)
  all_goals simp only [List.length_drop, List.length_cons]
  all_goals omega

/-- `find_device_only`. -/
def findDeviceOnly (src : List Char) : List Span :=
  spansFrom [] src

/-! ## The start of a declaration -/

/-- What is not blank at the end is not trimmed. -/
theorem trim_concat {c : Char} (hc : isSpace c = false) (x : List Char) : ∃ y, trim (x ++ [c]) = y ++ [c] := by
  have hdrop : ∃ y, (x ++ [c]).dropWhile isSpace = y ++ [c] := by
    rw [List.dropWhile_append]
    split
    · exact ⟨[], List.dropWhile_cons_of_neg (by simp [hc])⟩
    · exact ⟨_, rfl⟩
  obtain ⟨y, hy⟩ := hdrop
  refine ⟨y, ?_⟩
  unfold trim
  rw [hy, List.rdropWhile_concat_neg]
  simp [hc]

/-- The walk back never takes a step: what is before the start ends in a character at which it stops. -/
theorem declStart_eq (before : List Char) : declStart before = before.dropWhile fun c => !boundary c := by
  unfold declStart
  rcases hstart : before.dropWhile (fun c => !boundary c) with _ | ⟨c, more⟩
  · rw [walkBack, if_pos rfl]
  have hc : boundary c = true := by
    have hhead := List.head?_dropWhile_not (fun c => !boundary c) before
    rw [hstart] at hhead
    simpa using hhead
  rw [walkBack, if_neg (List.cons_ne_nil c more)]
  dsimp only
  rw [dif_pos]
  by_cases hline : c = '\n'
  · left
    rw [List.takeWhile_cons_of_neg (by simpa using hline)]
    rfl
  · rw [List.takeWhile_cons_of_pos (by simpa using hline), List.reverse_cons]
    have hlast : isSpace c = false ∧ (c = ';' ∨ c = '}' ∨ c = '{') := by
      unfold boundary at hc
      simp only [Bool.or_eq_true, beq_iff_eq] at hc
      rcases hc with ((rfl | rfl) | rfl) | hc
      · exact ⟨rfl, .inl rfl⟩
      · exact ⟨rfl, .inr (.inr rfl)⟩
      · exact ⟨rfl, .inr (.inl rfl)⟩
      · exact absurd hc hline
    obtain ⟨y, hy⟩ := trim_concat hlast.1 (more.takeWhile (· ≠ '\n')).reverse
    rw [hy, List.getLast?_concat]
    rcases hlast.2 with rfl | rfl | rfl
    · exact .inr (.inl rfl)
    · exact .inr (.inr (.inl rfl))
    · exact .inr (.inr (.inr (.inl rfl)))

theorem headOf_eq (before : List Char) : headOf before = (before.takeWhile fun c => !boundary c).reverse := by
  unfold headOf
  rw [declStart_eq]
  congr 1
  have hsplit := List.takeWhile_append_dropWhile (p := fun c => !boundary c) (l := before)
  have hlength := congrArg List.length hsplit
  rw [List.length_append] at hlength
  conv_lhs => rw [← hsplit]
  rw [List.take_append_of_le_length, List.take_of_length_le]
  · rw [hsplit]
    omega
  · rw [hsplit]
    omega

/-- A search back does not pass a character at which it stops. -/
theorem declStart_base {x base : List Char} (hbase : base.head?.all boundary = true) :
    base.length ≤ (declStart (x ++ base)).length := by
  rw [declStart_eq]
  have hstop : base.dropWhile (fun c => !boundary c) = base := by
    rcases base with _ | ⟨c, base⟩
    · rfl
    · have hc : boundary c = true := by simpa using hbase
      exact List.dropWhile_cons_of_neg (by simp [hc])
  rw [List.dropWhile_append]
  split
  · rw [hstop]
  · rw [List.length_append]
    exact Nat.le_add_left _ _

theorem declStart_le (before : List Char) : (declStart before).length ≤ before.length := by
  rw [declStart_eq]
  exact List.length_dropWhile_le _ _

/-- It passes what has no such character, and only that. -/
theorem declStart_passes_iff {x base : List Char} :
    (declStart (x ++ base)).length ≤ base.length ↔ ∀ c ∈ x, boundary c = false := by
  rw [declStart_eq]
  constructor
  · intro hle
    rw [List.dropWhile_append] at hle
    split at hle
    next hnil =>
      have hall := List.dropWhile_eq_nil_iff.mp (List.isEmpty_iff.mp hnil)
      intro c hc
      simpa using hall c hc
    next hsome =>
      rw [List.length_append] at hle
      have hpos : 0 < (x.dropWhile fun c => !boundary c).length := by
        apply List.length_pos_of_ne_nil
        intro hnil
        exact hsome (List.isEmpty_iff.mpr hnil)
      omega
  · intro hall
    rw [List.dropWhile_append_of_pos]
    · exact List.length_dropWhile_le _ _
    · intro c hc
      simp [hall c hc]

/-- A mark whose declaration starts before another one is for the host if that one is. -/
theorem forHost_of_passes {x base : List Char} (hx : ∀ c ∈ x, boundary c = false) (h : forHost base = true) :
    forHost (x ++ base) = true := by
  have hhead : headOf (x ++ base) = headOf base ++ x.reverse := by
    rw [headOf_eq, headOf_eq, List.takeWhile_append_of_pos, List.reverse_append]
    intro c hc
    simp [hx c hc]
  have hfind : ∀ w, (find w (headOf base)).isSome = true → (find w (headOf base ++ x.reverse)).isSome = true := by
    intro w hw
    obtain ⟨n, hn⟩ := Option.isSome_iff_exists.mp hw
    rw [find_append hn]
    rfl
  unfold forHost at h ⊢
  rw [hhead]
  rcases (Bool.or_eq_true ..).mp h with h | h
  · rw [hfind _ h]
    rfl
  · rw [hfind _ h, Bool.or_true]

/-! ## The end of a function -/

/-- Steps up to the first semicolon, or to the end of the first braces if these come first. -/
def Ending (a : List Atom) : Prop :=
  ∃ front, (∀ c, .code c ∈ front → c ≠ '{' ∧ c ≠ ';') ∧
    (a = front ++ [.code ';'] ∨ ∃ body, Nested '{' '}' 0 body ∧ a = front ++ .code '{' :: (body ++ [.code '}']))

theorem Ending.behind {a b : List Atom} (ha : ∀ c, .code c ∈ a → c ≠ '{' ∧ c ≠ ';') (hb : Ending b) :
    Ending (a ++ b) := by
  obtain ⟨front, hfront, hend⟩ := hb
  refine ⟨a ++ front, fun c hc => (List.mem_append.mp hc).elim (ha c) (hfront c), ?_⟩
  rcases hend with rfl | ⟨body, hbody, rfl⟩
  · exact .inl (List.append_assoc ..).symm
  · exact .inr ⟨body, hbody, (List.append_assoc ..).symm⟩

/-- The end of braces is found. -/
theorem matchBracket_braces {before : List Char} {body b : List Atom} (hbody : Nested '{' '}' 0 body)
    (hsync : Sync before (.code '{' :: (body ++ .code '}' :: b))) :
    matchBracket before (render (.code '{' :: (body ++ .code '}' :: b))) = some ((render body).length + 2) := by
  have hscan : scan before (render (.code '{' :: (body ++ .code '}' :: b))) = .code '{' :: (body ++ .code '}' :: b) :=
    hsync
  have hfirst := matchFrom_nested hbody (by decide) b
  unfold matchBracket
  dsimp only
  rw [hscan]
  show (matchFrom '{' '}' ((0 : ℕ) + 1) _).map (1 + ·) = _
  rw [hfirst, Option.map_some]
  congr 1
  omega

theorem mem_render {c : Char} {a : List Atom} (h : .code c ∈ a) : c ∈ render a :=
  List.mem_flatMap.mpr ⟨.code c, h, List.mem_singleton_self c⟩

theorem onlyEnd_skip {f : Bool} {before text : List Char} {rest : List Atom}
    (hsync : Sync before (.skip text :: rest)) : onlyEnd f before (render (.skip text :: rest)) =
      (onlyEnd f (text.reverse ++ before) (render rest)).map (text.length + ·) := by
  obtain ⟨-, c, more, hwhole, hskip, htake, hdrop⟩ := hsync.skip
  have hlength : skipNoncode before (c :: more) = text.length ∨ render rest = [] := by
    by_cases hle : skipNoncode before (c :: more) ≤ (c :: more).length
    · left
      rw [← htake, List.length_take, Nat.min_eq_left hle]
    · right
      rw [← hdrop, List.drop_eq_nil_iff]
      omega
  show onlyEnd f before (text ++ render rest) = _
  rw [hwhole, onlyEnd]
  rw [if_pos hskip, htake, hdrop]
  rcases hlength with hlength | hnil
  · rw [hlength]
  · rw [hnil, onlyEnd]
    rfl

/-- Up to a semicolon or a brace: what counts is whether there is a round bracket before it. -/
theorem onlyEnd_front {x : Char} (hx : x = ';' ∨ x = '{') {tail b : List Atom}
    (hend : ∀ f before, Sync before (.code x :: (tail ++ b)) → onlyEnd f before (render (.code x :: (tail ++ b))) =
      if f = true then some (render (.code x :: tail)).length else none)
    {front : List Atom} (hfront : ∀ c, .code c ∈ front → c ≠ '{' ∧ c ≠ ';') (f : Bool) {before : List Char}
    (hsync : Sync before (front ++ .code x :: (tail ++ b))) :
    onlyEnd f before (render (front ++ .code x :: (tail ++ b))) =
      if f = true ∨ Loud (front ++ .code x :: tail) then some (render (front ++ .code x :: tail)).length else none := by
  induction front generalizing f before with
  | nil =>
    have hquiet : ¬Loud (.code x :: tail) := by
      intro hloud
      rcases hx with rfl | rfl
      · exact absurd (Option.some.inj hloud) (by decide)
      · exact absurd (Option.some.inj hloud) (by decide)
    show onlyEnd f before (render (.code x :: (tail ++ b))) =
      if f = true ∨ Loud (.code x :: tail) then some (render (.code x :: tail)).length else none
    rw [hend f before hsync]
    exact if_congr (by rw [or_iff_left hquiet]) rfl rfl
  | cons y front ih =>
    have hrest : ∀ c, .code c ∈ front → c ≠ '{' ∧ c ≠ ';' := fun c hc => hfront c (List.mem_cons_of_mem y hc)
    have hmap : ∀ (n : ℕ) (q : Prop) [Decidable q],
        (if q then some (render (front ++ .code x :: tail)).length else none).map (n + ·) =
          if q then some (n + (render (front ++ .code x :: tail)).length) else none := by
      intro n q _
      split
      · rfl
      · rfl
    rcases y with c | text
    · have hsync : Sync before (.code c :: (front ++ .code x :: (tail ++ b))) := hsync
      obtain ⟨hcode, hnext⟩ := hsync.code
      obtain ⟨hbrace, hsemi⟩ := hfront c List.mem_cons_self
      have hlength : (render (.code c :: front ++ .code x :: tail)).length =
          1 + (render (front ++ .code x :: tail)).length := Nat.add_comm ..
      show onlyEnd f before (c :: render (front ++ .code x :: (tail ++ b))) = _
      rw [onlyEnd]
      rw [if_neg (not_not.mpr hcode), hlength]
      by_cases hround : c = '('
      · subst hround
        rw [if_pos rfl, ih hrest true hnext, hmap]
        have hloud : Loud (.code '(' :: front ++ .code x :: tail) := rfl
        rw [if_pos (.inl rfl), if_pos (.inr hloud)]
      · have hsame : Loud (.code c :: front ++ .code x :: tail) ↔ Loud (front ++ .code x :: tail) := by
          show (if c = '(' ∨ c = '{' ∨ c = ';' then some c else firstStop (front ++ .code x :: tail)) = some '(' ↔ _
          rw [if_neg (by tauto)]
          rfl
        rw [if_neg hround, if_neg hbrace, if_neg hsemi, if_neg, ih hrest f hnext, hmap]
        · exact if_congr (by rw [hsame]) rfl rfl
        · -- the word would be all that is left, which has a semicolon or a brace
          intro hword
          have hlength := congrArg List.length hword
          rw [List.length_take] at hlength
          have hwhole : c :: render (front ++ .code x :: (tail ++ b)) = hostWord := by
            rw [← hword, List.take_of_length_le]
            have height : hostWord.length = 8 := rfl
            omega
          have hmem : x ∈ hostWord := by
            rw [← hwhole]
            exact List.mem_cons_of_mem c (mem_render (List.mem_append_right front List.mem_cons_self))
          rcases hx with rfl | rfl
          · exact absurd hmem (by decide)
          · exact absurd hmem (by decide)
    · have hsync : Sync before (.skip text :: (front ++ .code x :: (tail ++ b))) := hsync
      show onlyEnd f before (render (.skip text :: (front ++ .code x :: (tail ++ b)))) = _
      rw [onlyEnd_skip hsync, ih hrest f hsync.skip.1, hmap]
      have hlength : (render (.skip text :: front ++ .code x :: tail)).length =
          text.length + (render (front ++ .code x :: tail)).length := List.length_append
      rw [hlength]
      rfl

/-- The end of a function is found, and of what does not look like one it is not. -/
theorem onlyEnd_ending {a b : List Atom} (ha : Ending a) (f : Bool) {before : List Char} (hsync : Sync before (a ++ b)) :
    onlyEnd f before (render (a ++ b)) = if f = true ∨ Loud a then some (render a).length else none := by
  obtain ⟨front, hfront, rfl | ⟨body, hbody, rfl⟩⟩ := ha
  · have hassoc : front ++ [.code ';'] ++ b = front ++ .code ';' :: ([] ++ b) := List.append_assoc ..
    rw [hassoc] at hsync ⊢
    apply onlyEnd_front (.inl rfl) _ hfront f hsync
    intro f before hsync
    show onlyEnd f before (';' :: render ([] ++ b)) = _
    rw [onlyEnd]
    rw [if_neg (not_not.mpr (skipNoncode_ordinary (by decide) _ _)), if_neg (by decide), if_neg (by decide), if_pos rfl]
    rfl
  · have hassoc : front ++ .code '{' :: (body ++ [.code '}']) ++ b =
        front ++ .code '{' :: ((body ++ [.code '}']) ++ b) := List.append_assoc ..
    rw [hassoc] at hsync ⊢
    apply onlyEnd_front (.inr rfl) _ hfront f hsync
    intro f before hsync
    have hbraces : body ++ [.code '}'] ++ b = body ++ .code '}' :: b := by simp
    have hlength : (render (.code '{' :: (body ++ [.code '}']))).length = (render body).length + 2 := by
      rw [render_cons, render_append]
      simp only [List.length_append]
      show 1 + ((render body).length + 1) = _
      omega
    rw [hbraces] at hsync ⊢
    have hmatch := matchBracket_braces hbody hsync
    show onlyEnd f before ('{' :: render (body ++ .code '}' :: b)) = _
    rw [onlyEnd]
    rw [if_neg (not_not.mpr (skipNoncode_ordinary (by decide) _ _)), if_neg (by decide), if_pos rfl, hlength, ← hmatch]
    rfl

/-! ## One declaration -/

theorem wordAt_device_of_none {before text : List Char} (h : markAt before text = none) :
    wordAt Mark.device.word before text = false := by
  unfold markAt at h
  split at h
  · exact absurd h nofun
  · split at h
    · exact absurd h nofun
    next hnot => exact Bool.eq_false_iff.mpr hnot

theorem spansFrom_code {before rest : List Char} {c : Char} (hcode : skipNoncode before (c :: rest) = 0)
    (hword : wordAt Mark.device.word before (c :: rest) = false) :
    spansFrom before (c :: rest) = spansFrom (c :: before) rest := by
  rw [spansFrom]
  dsimp only
  rw [if_neg (not_not.mpr hcode), if_pos hword]

/-- Nothing is found where there is no mark. -/
theorem spansFrom_silent {before : List Char} {a b : List Atom} (hsync : Sync before (a ++ b))
    (hsilent : Silent before a (render b)) :
    spansFrom before (render (a ++ b)) = spansFrom ((render a).reverse ++ before) (render b) := by
  induction a generalizing before with
  | nil => rfl
  | cons x a ih =>
    have hreverse : (render (x :: a)).reverse ++ before = (render a).reverse ++ (x.text.reverse ++ before) := by
      rw [render_cons, List.reverse_append, List.append_assoc]
    rw [hreverse]
    rcases x with c | text
    · have hsync : Sync before (.code c :: (a ++ b)) := hsync
      obtain ⟨hcode, hrest⟩ := hsync.code
      obtain ⟨hmark, hsilent⟩ := hsilent
      rw [← render_append] at hmark
      show spansFrom before (c :: render (a ++ b)) = _
      rw [spansFrom_code hcode (wordAt_device_of_none hmark)]
      exact ih hrest hsilent
    · have hsync : Sync before (.skip text :: (a ++ b)) := hsync
      obtain ⟨hrest, c, more, hwhole, hskip, htake, hdrop⟩ := hsync.skip
      show spansFrom before (text ++ render (a ++ b)) = _
      rw [hwhole, spansFrom]
      dsimp only
      rw [if_pos hskip, htake, hdrop]
      exact ih hrest hsilent

/-- There is no word inside another. -/
theorem spansFrom_inside {before text rest : List Char} (hbefore : before.head?.any identChar = true)
    (htext : ∀ c ∈ text, Ordinary c ∧ identChar c = true) :
    spansFrom before (text ++ rest) = spansFrom (text.reverse ++ before) rest := by
  induction text generalizing before with
  | nil => rfl
  | cons c text ih =>
    obtain ⟨hordinary, hident⟩ := htext c List.mem_cons_self
    have hword : wordAt Mark.device.word before (c :: (text ++ rest)) = false := by
      unfold wordAt
      rw [hbefore, Bool.not_true, Bool.and_false, Bool.false_and]
    rw [List.cons_append, spansFrom_code (skipNoncode_ordinary hordinary _ _) hword,
      ih (by simpa using hident) fun d hd => htext d (List.mem_cons_of_mem c hd), List.reverse_cons, List.append_assoc]
    rfl

/-- At a `__constant__` nothing is found. -/
theorem spansFrom_constant {before rest : List Char}
    (hmark : markAt before (Mark.constant.word ++ rest) = some .constant) :
    spansFrom before (Mark.constant.word ++ rest) = spansFrom (Mark.constant.word.reverse ++ before) rest := by
  have hinside : ∀ c ∈ Mark.constant.word.tail, Ordinary c ∧ identChar c = true := by decide
  have hfirst : wordAt Mark.device.word before (Mark.constant.word ++ rest) = false := by
    rw [← Bool.not_eq_true]
    intro hdevice
    obtain ⟨more, hmore⟩ := wordAt_spec hdevice
    have hthird := congrArg (fun l => l.drop 2 |>.head?) hmore
    exact absurd (Option.some.inj hthird) (by decide)
  have hcons : Mark.constant.word ++ rest = '_' :: (Mark.constant.word.tail ++ rest) := rfl
  rw [hcons] at hfirst ⊢
  rw [spansFrom_code (skipNoncode_ordinary (by decide) _ _) hfirst, spansFrom_inside (by rfl) hinside]
  rfl

/-- At a `__device__`. -/
theorem spansFrom_device {before : List Char} {behind : List Atom}
    (hsync : Sync before (Mark.device.word.map .code ++ behind))
    (hmark : markAt before (Mark.device.word ++ render behind) = some .device) :
    spansFrom before (Mark.device.word ++ render behind) =
      if forHost before then spansFrom (Mark.device.word.reverse ++ before) (render behind)
      else
        match onlyEnd false (Mark.device.word.reverse ++ before) (render behind) with
        | none => spansFrom (Mark.device.word.reverse ++ before) (render behind)
        | some n => ⟨(declStart before).length, (Mark.device.word.reverse ++ before).length + n⟩ ::
            spansFrom (((render behind).take n).reverse ++ (Mark.device.word.reverse ++ before)) ((render behind).drop n) := by
  have hword : wordAt Mark.device.word before (Mark.device.word ++ render behind) = true := by
    unfold markAt at hmark
    split at hmark
    · exact absurd (Option.some.inj hmark) nofun
    · split at hmark
      next h => exact h
      next => exact absurd hmark nofun
  have hcons : Mark.device.word ++ render behind = '_' :: (Mark.device.word.tail ++ render behind) := rfl
  rw [hcons] at hword ⊢
  rw [spansFrom]
  dsimp only
  rw [if_neg (not_not.mpr (skipNoncode_ordinary (by decide) _ _)), if_neg (by rw [hword]; exact nofun), ← hcons,
    List.drop_left]

/-- What is dropped of a declaration, up to `stop`: from the first of its `__device__` that is not for the host and
looks like that of a function. -/
def dropped (stop : ℕ) (tail : List Atom) (before : List Char) : List (Mark × List Atom) → List Span
  | [] => []
  | (m, gap) :: marks =>
    if m = .device ∧ forHost before = false ∧ Loud (gap ++ (markAtoms marks ++ tail)) then
      [⟨(declStart before).length, stop⟩]
    else dropped stop tail ((render gap).reverse ++ (m.word.reverse ++ before)) marks

theorem Ending.loud_append {a : List Atom} (ha : Ending a) (b : List Atom) : Loud (a ++ b) ↔ Loud a := by
  have hstop : ∃ stop, firstStop a = some stop := by
    obtain ⟨front, -, rfl | ⟨body, -, rfl⟩⟩ := ha
    · exact exists_firstStop (.inl rfl) front []
    · exact exists_firstStop (.inr rfl) front _
  obtain ⟨stop, hstop⟩ := hstop
  unfold Loud
  rw [firstStop_append_some hstop, hstop]

/-- The loop over the marks of a declaration and what is behind them. -/
theorem spansFrom_marks {p b t u : List Atom} {marks : List (Mark × List Atom)}
    (hsync : Sync [] (p ++ (markAtoms marks ++ (t ++ u ++ b)))) (hclear : Clear marks)
    (hmarks : MarksRead (render p).reverse marks (render (t ++ u) ++ render b))
    (htail : Silent ((render (markAtoms marks)).reverse ++ (render p).reverse) (t ++ u) (render b)) (hend : Ending t) :
    spansFrom (render p).reverse (render (markAtoms marks ++ (t ++ u ++ b))) =
      dropped (render (p ++ (markAtoms marks ++ t))).length (t ++ u) (render p).reverse marks ++
        spansFrom ((render (t ++ u)).reverse ++ ((render (markAtoms marks)).reverse ++ (render p).reverse)) (render b) := by
  induction marks generalizing p with
  | nil =>
    have hrest : Sync ((render p).reverse ++ []) (t ++ u ++ b) := hsync.append
    rw [List.append_nil] at hrest
    exact spansFrom_silent hrest htail
  | cons mg marks ih =>
    obtain ⟨m, gap⟩ := mg
    obtain ⟨hmark, hgap, hmarks⟩ := hmarks
    have hclear' : Clear marks := fun x hx => hclear x (List.mem_cons_of_mem _ hx)
    have hgapClear := hclear (m, gap) List.mem_cons_self
    have hatoms : markAtoms ((m, gap) :: marks) ++ (t ++ u ++ b) =
        m.word.map .code ++ (gap ++ (markAtoms marks ++ (t ++ u ++ b))) := by
      rw [markAtoms_cons, List.append_assoc, List.append_assoc]
    rw [hatoms] at hsync ⊢
    have hhere : Sync (render p).reverse (m.word.map .code ++ (gap ++ (markAtoms marks ++ (t ++ u ++ b)))) := by
      have hnext := hsync.append
      rwa [List.append_nil] at hnext
    have hmark : markAt (render p).reverse (m.word ++ render (gap ++ (markAtoms marks ++ (t ++ u ++ b)))) = some m := by
      simpa only [render_append, List.append_assoc] using hmark
    have hnext : Sync (m.word.reverse ++ (render p).reverse) (gap ++ (markAtoms marks ++ (t ++ u ++ b))) := by
      have hnext := hhere.append
      rwa [render_code] at hnext
    have hbefore : (render (p ++ (m.word.map .code ++ gap))).reverse =
        (render gap).reverse ++ (m.word.reverse ++ (render p).reverse) := by
      rw [render_append, render_append, render_code, List.reverse_append, List.reverse_append, List.append_assoc]
    have hwhole : (render (markAtoms ((m, gap) :: marks))).reverse ++ (render p).reverse =
        (render (markAtoms marks)).reverse ++ (render (p ++ (m.word.map .code ++ gap))).reverse := by
      rw [hbefore, markAtoms_cons, render_append, render_append, render_code]
      simp only [List.reverse_append, List.append_assoc]
    -- if it is passed, the others are looked at
    have hpast : spansFrom (m.word.reverse ++ (render p).reverse)
        (render (gap ++ (markAtoms marks ++ (t ++ u ++ b)))) =
          dropped (render (p ++ (markAtoms ((m, gap) :: marks) ++ t))).length (t ++ u)
            ((render gap).reverse ++ (m.word.reverse ++ (render p).reverse)) marks ++
              spansFrom ((render (t ++ u)).reverse ++
                ((render (markAtoms ((m, gap) :: marks))).reverse ++ (render p).reverse)) (render b) := by
      have hassoc : ∀ a : List Atom, p ++ (m.word.map .code ++ (gap ++ a)) = p ++ (m.word.map .code ++ gap) ++ a := by
        intro a
        simp only [List.append_assoc]
      have hstop : p ++ (markAtoms ((m, gap) :: marks) ++ t) = p ++ (m.word.map .code ++ gap) ++ (markAtoms marks ++ t) := by
        rw [markAtoms_cons]
        simp only [List.append_assoc]
      rw [hassoc] at hsync
      rw [← hbefore] at hmarks
      rw [hwhole] at htail ⊢
      rw [spansFrom_silent hnext, ← hbefore, hstop]
      · exact ih hsync hclear' hmarks htail
      · rw [render_append, render_append]
        exact hgap
    rw [render_append, render_code]
    rcases m with _ | _
    swap
    · rw [spansFrom_constant hmark, hpast]
      have hstep : dropped (render (p ++ (markAtoms ((.constant, gap) :: marks) ++ t))).length (t ++ u)
          (render p).reverse ((.constant, gap) :: marks) = dropped _ (t ++ u)
            ((render gap).reverse ++ (Mark.constant.word.reverse ++ (render p).reverse)) marks := if_neg (by simp)
      rw [hstep]
    rw [spansFrom_device hhere hmark]
    have hfirst : Ending (gap ++ (markAtoms marks ++ t)) := by
      apply Ending.behind fun c hc => ⟨(hgapClear c hc).1, (hgapClear c hc).2.2⟩
      exact Ending.behind (fun c hc => ⟨(hclear'.code c hc).1, (hclear'.code c hc).2.2⟩) hend
    have hsplit : gap ++ (markAtoms marks ++ (t ++ u ++ b)) = gap ++ (markAtoms marks ++ t) ++ (u ++ b) := by
      simp only [List.append_assoc]
    have hown : gap ++ (markAtoms marks ++ (t ++ u)) = gap ++ (markAtoms marks ++ t) ++ u := by
      simp only [List.append_assoc]
    have hloudIff : Loud (gap ++ (markAtoms marks ++ (t ++ u))) ↔ Loud (gap ++ (markAtoms marks ++ t)) := by
      rw [hown]
      exact hfirst.loud_append u
    have hcut : Sync (Mark.device.word.reverse ++ (render p).reverse) (gap ++ (markAtoms marks ++ t) ++ (u ++ b)) :=
      hsplit ▸ hnext
    have honly := onlyEnd_ending hfirst false hcut
    rw [← hsplit] at honly
    show _ = (if _ ∧ _ ∧ Loud (gap ++ (markAtoms marks ++ (t ++ u))) then _ else dropped _ _ _ marks) ++ _
    by_cases hhost : forHost (render p).reverse = true
    · rw [if_pos hhost, if_neg (by simp [hhost]), hpast]
    rw [if_neg hhost, honly]
    by_cases hloud : Loud (gap ++ (markAtoms marks ++ t))
    · rw [if_pos (.inr hloud), if_pos ⟨rfl, Bool.not_eq_true _ ▸ hhost, hloudIff.mpr hloud⟩]
      have hrender : render (gap ++ (markAtoms marks ++ (t ++ u ++ b))) =
          render (gap ++ (markAtoms marks ++ t)) ++ render (u ++ b) := by
        rw [hsplit, render_append]
      have hstop : (Mark.device.word.reverse ++ (render p).reverse).length + (render (gap ++ (markAtoms marks ++ t))).length =
          (render (p ++ (markAtoms ((.device, gap) :: marks) ++ t))).length := by
        rw [markAtoms_cons]
        simp only [render_append, render_code, List.length_append, List.length_reverse]
        omega
      have hlast : (render (gap ++ (markAtoms marks ++ t))).reverse ++ (Mark.device.word.reverse ++ (render p).reverse) =
          (render t).reverse ++ ((render (markAtoms ((.device, gap) :: marks))).reverse ++ (render p).reverse) := by
        rw [markAtoms_cons]
        simp only [render_append, render_code, List.reverse_append, List.append_assoc]
      have hend : (render (t ++ u)).reverse ++ ((render (markAtoms ((.device, gap) :: marks))).reverse ++
          (render p).reverse) = (render u).reverse ++ ((render t).reverse ++
            ((render (markAtoms ((.device, gap) :: marks))).reverse ++ (render p).reverse)) := by
        rw [render_append, List.reverse_append, List.append_assoc]
      dsimp only
      rw [hrender, List.take_left, List.drop_left, hstop, hlast, hend]
      apply congrArg (_ :: ·)
      apply spansFrom_silent
      · rw [← hlast]
        exact hcut.append
      · exact (silent_append_iff.mp htail).2
    · rw [if_neg (by simp [hloud]), if_neg (by simp [hloudIff, hloud])]
      exact hpast

theorem exists_ending {a : List Atom} (ha : Nested '{' '}' 0 a) (hmem : .code ';' ∈ a ∨ .code '{' ∈ a) :
    ∃ t u, a = t ++ u ∧ Ending t := by
  have hfirst : ∃ front x rest, a = front ++ .code x :: rest ∧ (x = ';' ∨ x = '{') ∧
      ∀ c, .code c ∈ front → c ≠ '{' ∧ c ≠ ';' := by
    clear ha
    induction a with
    | nil => exact hmem.elim (fun h => absurd h List.not_mem_nil) fun h => absurd h List.not_mem_nil
    | cons y a ih =>
      by_cases hy : y = .code ';' ∨ y = .code '{'
      · rcases hy with rfl | rfl
        · exact ⟨[], ';', a, rfl, .inl rfl, nofun⟩
        · exact ⟨[], '{', a, rfl, .inr rfl, nofun⟩
      · rw [not_or] at hy
        have hrest : .code ';' ∈ a ∨ .code '{' ∈ a :=
          hmem.imp (fun h => (List.mem_cons.mp h).resolve_left (Ne.symm hy.1))
            fun h => (List.mem_cons.mp h).resolve_left (Ne.symm hy.2)
        obtain ⟨front, x, rest, rfl, hx, hfront⟩ := ih hrest
        refine ⟨y :: front, x, rest, rfl, hx, fun c hc => ?_⟩
        rcases List.mem_cons.mp hc with rfl | hc
        · exact ⟨fun h => hy.2 (congrArg Atom.code h), fun h => hy.1 (congrArg Atom.code h)⟩
        · exact hfront c hc
  obtain ⟨front, x, rest, rfl, rfl | rfl, hfront⟩ := hfirst
  · exact ⟨front ++ [.code ';'], rest, by simp, front, hfront, .inl rfl⟩
  · have hopen : Nested '{' '}' 1 rest := ha.front fun c hc => (hfront c hc).1
    obtain ⟨body, more, rfl, hbody, -⟩ := hopen.cut (by decide)
    exact ⟨front ++ .code '{' :: (body ++ [.code '}']), more, by simp, front, hfront, .inr ⟨body, hbody, rfl⟩⟩

/-- The signature of a function has no brace and no semicolon. -/
def Plainly (signature : List Atom) : Prop :=
  ∀ c, .code c ∈ signature → c ≠ '{' ∧ c ≠ ';'

/-- The end that is found for a function is its end if its signature has no brace and no semicolon, and only then. -/
theorem func_ending (both : Bool) {signature : List Atom} {body : Option (List Atom)}
    (hsignature : Nested '{' '}' 0 signature) (hbody : ∀ b ∈ body, Nested '{' '}' 0 b) :
    ∃ t u, (Tail.func both signature body).atoms = t ++ u ∧ Ending t ∧ (render u = [] ↔ Plainly signature) := by
  by_cases hplain : Plainly signature
  · refine ⟨(Tail.func both signature body).atoms, [], (List.append_nil _).symm, ⟨signature, hplain, ?_⟩,
      fun _ => hplain, fun _ => rfl⟩
    rcases body with _ | body
    · exact .inl rfl
    · exact .inr ⟨body, hbody body rfl, rfl⟩
  · have hmem : .code ';' ∈ signature ∨ .code '{' ∈ signature := by
      by_contra hnone
      rw [not_or] at hnone
      exact hplain fun c hc => ⟨fun h => hnone.2 (h ▸ hc), fun h => hnone.1 (h ▸ hc)⟩
    obtain ⟨t, u, rfl, ht⟩ := exists_ending hsignature hmem
    refine ⟨t, u ++ bodyAtoms body, List.append_assoc .., ht, fun hnil => ?_, fun h => absurd h hplain⟩
    rw [render_append, List.append_eq_nil_iff] at hnil
    rcases body with _ | body
    · exact absurd hnil.2 (List.cons_ne_nil _ _)
    · exact absurd hnil.2 (List.cons_ne_nil _ _)

/-- A span that is dropped starts where the declaration of a mark does. -/
theorem dropped_mem {stop : ℕ} {tail : List Atom} {before : List Char} {marks : List (Mark × List Atom)} {s : Span}
    (h : s ∈ dropped stop tail before marks) :
    s.stop = stop ∧ ∃ x, s.start = (declStart (x ++ before)).length ∧ forHost (x ++ before) = false ∧
      x.length < (render (markAtoms marks)).length := by
  induction marks generalizing before with
  | nil => exact absurd h List.not_mem_nil
  | cons mg marks ih =>
    obtain ⟨m, gap⟩ := mg
    have hlength : (render (markAtoms ((m, gap) :: marks))).length =
        m.word.length + ((render gap).length + (render (markAtoms marks)).length) := by
      rw [markAtoms_cons, render_append, render_append, render_code, List.length_append, List.length_append]
    have hword := List.length_pos_of_ne_nil (word_ne_nil m)
    unfold dropped at h
    split at h
    next hmark =>
      rw [List.mem_singleton.mp h]
      refine ⟨rfl, [], rfl, hmark.2.1, ?_⟩
      rw [hlength, List.length_nil]
      omega
    next =>
      obtain ⟨hstop, x, hstart, hhost, hx⟩ := ih h
      refine ⟨hstop, x ++ ((render gap).reverse ++ m.word.reverse), ?_, ?_, ?_⟩
      · simpa only [List.append_assoc] using hstart
      · simpa only [List.append_assoc] using hhost
      · rw [hlength]
        simp only [List.length_append, List.length_reverse]
        omega

/-- A loop finds no span that starts before its position and what it cannot pass. -/
theorem spansFrom_bound {x base text : List Char} (hbase : base.head?.all boundary = true) {s : Span}
    (h : s ∈ spansFrom (x ++ base) text) : base.length ≤ s.start := by
  generalize hbefore : x ++ base = before at h
  have hmore : ∀ {x before : List Char} (y : List Char), x ++ base = before → y ++ x ++ base = y ++ before := by
    rintro x before y rfl
    exact List.append_assoc ..
  induction before, text using spansFrom.induct generalizing x with
  | case1 before =>
    rw [spansFrom] at h
    exact absurd h List.not_mem_nil
  | case2 before c rest k hskip =>
    rename_i ih
    rw [spansFrom] at h
    dsimp only at h
    rw [if_pos hskip] at h
    exact ih (hmore _ hbefore) h
  | case3 before c rest k hskip =>
    rename_i hword ih
    rw [spansFrom] at h
    dsimp only at h
    rw [if_neg hskip, if_pos hword] at h
    exact ih (hmore [c] hbefore) h
  | case4 before c rest k hskip hword past behind =>
    rename_i hhost ih
    rw [spansFrom] at h
    dsimp only at h
    rw [if_neg hskip, if_neg hword, if_pos hhost] at h
    exact ih (hmore _ hbefore) h
  | case5 before c rest k hskip hword past behind =>
    rename_i hhost hend ih
    rw [spansFrom] at h
    dsimp only at h
    rw [if_neg hskip, if_neg hword, if_neg hhost, hend] at h
    exact ih (hmore _ hbefore) h
  | case6 before c rest k hskip hword past behind =>
    rename_i hhost n hend ih
    rw [spansFrom] at h
    dsimp only at h
    rw [if_neg hskip, if_neg hword, if_neg hhost, hend] at h
    rcases List.mem_cons.mp h with rfl | h
    · rw [← hbefore]
      exact declStart_base hbase
    · exact ih (hmore _ (hmore _ hbefore)) h

/-- No `__device__` of a declaration looks like that of a function, but where the text before it is for the host. -/
def Undropped (tail : List Atom) (before : List Char) : List (Mark × List Atom) → Prop
  | [] => True
  | (m, gap) :: marks =>
    (m = .device → Loud (gap ++ (markAtoms marks ++ tail)) → forHost before = true) ∧
      Undropped tail ((render gap).reverse ++ (m.word.reverse ++ before)) marks

theorem dropped_nil_iff (stop : ℕ) {tail : List Atom} {before : List Char} {marks : List (Mark × List Atom)} :
    dropped stop tail before marks = [] ↔ Undropped tail before marks := by
  induction marks generalizing before with
  | nil => exact ⟨fun _ => trivial, fun _ => rfl⟩
  | cons mg marks ih =>
    obtain ⟨m, gap⟩ := mg
    unfold dropped Undropped
    by_cases hmark : m = .device ∧ forHost before = false ∧ Loud (gap ++ (markAtoms marks ++ tail))
    · rw [if_pos hmark]
      constructor
      · intro h
        exact absurd h (List.cons_ne_nil _ _)
      · intro h
        rw [h.1 hmark.1 hmark.2.2] at hmark
        exact absurd hmark.2.1 nofun
    · rw [if_neg hmark, ih]
      refine ⟨fun h => ⟨fun hm hloud => ?_, h⟩, fun h => h.2⟩
      by_contra hhost
      exact hmark ⟨hm, Bool.not_eq_true _ ▸ hhost, hloud⟩

/-- What is before the first `__device__`. -/
def firstDevice (before : List Char) : List (Mark × List Atom) → Option (List Char)
  | [] => none
  | (m, gap) :: marks =>
    if m = .device then some before else firstDevice ((render gap).reverse ++ (m.word.reverse ++ before)) marks

/-- A function is dropped, from before `lo` up to its end, if its first `__device__` is not for the host and
the search for its start passes what is before it. -/
theorem dropped_one_iff {stop lo hi : ℕ} {tail : List Atom} (htail : Loud tail) {before : List Char}
    {marks : List (Mark × List Atom)} (hclear : Clear marks) (hdevice : ∃ m ∈ marks, m.1 = .device)
    (hlo : lo ≤ before.length) :
    (∃ s, dropped stop tail before marks = [s] ∧ s.start ≤ lo ∧ s.stop = hi) ↔
      stop = hi ∧ ∀ here ∈ firstDevice before marks, forHost here = false ∧ (declStart here).length ≤ lo := by
  induction marks generalizing before with
  | nil =>
    obtain ⟨m, hm, -⟩ := hdevice
    exact absurd hm List.not_mem_nil
  | cons mg marks ih =>
    obtain ⟨m, gap⟩ := mg
    have hclear' : Clear marks := fun x hx => hclear x (List.mem_cons_of_mem _ hx)
    have hloud : Loud (gap ++ (markAtoms marks ++ tail)) := by
      apply Loud.behind fun c hc => ⟨(hclear (m, gap) List.mem_cons_self c hc).1,
        (hclear (m, gap) List.mem_cons_self c hc).2.2⟩
      exact Loud.behind (fun c hc => ⟨(hclear'.code c hc).1, (hclear'.code c hc).2.2⟩) htail
    unfold dropped firstDevice
    by_cases hm : m = .device
    · subst hm
      rw [if_pos rfl]
      simp only [Option.mem_def, Option.some.injEq, forall_eq']
      by_cases hhost : forHost before = false
      · rw [if_pos ⟨trivial, hhost, hloud⟩]
        constructor
        · rintro ⟨s, hs, hstart, hstop⟩
          rw [← (List.cons.inj hs).1] at hstart hstop
          exact ⟨hstop, hhost, hstart⟩
        · rintro ⟨rfl, -, hstart⟩
          exact ⟨_, rfl, hstart, rfl⟩
      · rw [if_neg fun h => hhost h.2.1]
        constructor
        · rintro ⟨s, hs, hstart, -⟩
          -- it would start before this mark, and so be for the host
          obtain ⟨-, x, hx, hnot, -⟩ := dropped_mem (hs ▸ List.mem_singleton_self s)
          rw [← List.append_assoc, ← List.append_assoc] at hx hnot
          rw [hx] at hstart
          have hpasses := declStart_passes_iff.mp (hstart.trans hlo)
          rw [forHost_of_passes hpasses (by simpa using hhost)] at hnot
          exact absurd hnot nofun
        · rintro ⟨-, hnot, -⟩
          exact absurd hnot hhost
    · rw [if_neg fun h => hm h.1, if_neg hm]
      apply ih hclear'
      · obtain ⟨x, hx, hdev⟩ := hdevice
        rcases List.mem_cons.mp hx with rfl | hx
        · exact absurd hdev hm
        · exact ⟨x, hx, hdev⟩
      · simp only [List.length_append]
        omega

/-! ## Files -/

/-- A function for the device only is covered by one span, which ends where it does; of all else no span has
a part. -/
def Declaration.Told (lo : ℕ) (spans : List Span) (d : Declaration) : Prop :=
  let own := spans.filter fun s => decide (s.start < lo + (render d.own).length ∧ lo < s.stop)
  (d.DeviceOnly → ∃ s, own = [s] ∧ s.start ≤ lo ∧ s.stop = lo + (render d.own).length) ∧ (¬d.DeviceOnly → own = [])

def AllTold (spans : List Span) : ℕ → List Declaration → Prop
  | _, [] => True
  | lo, d :: decls => d.Told (lo + (render d.lead).length) spans ∧ AllTold spans (lo + (render d.atoms).length) decls

/-- No `__device__` makes a variable, or a function for the host too, look like a function for the device only. A
function for the device only has no brace and no semicolon before its body or its end, and its first `__device__`
has no line end, brace or semicolon before it in the declaration, and no word for the host between
such a character and itself. -/
def Declaration.SpanGood (before : List Char) (d : Declaration) : Prop :=
  match d.tail with
  | .func false signature _ => Plainly signature ∧
    ∀ here ∈ firstDevice ((render (d.lead ++ d.pre)).reverse ++ before) d.marks, forHost here = false ∧
      ∀ c ∈ here.take (here.length - (before.length + (render d.lead).length)), boundary c = false
  | _ => Undropped d.tail.atoms ((render (d.lead ++ d.pre)).reverse ++ before) d.marks

def SpansGood (before : List Char) : List Declaration → Prop
  | [] => True
  | d :: decls => d.SpanGood before ∧ SpansGood ((render d.atoms).reverse ++ before) decls

theorem firstDevice_suffix {before here : List Char} {marks : List (Mark × List Atom)}
    (h : here ∈ firstDevice before marks) : before <:+ here := by
  induction marks generalizing before with
  | nil => exact absurd h nofun
  | cons mg marks ih =>
    obtain ⟨m, gap⟩ := mg
    unfold firstDevice at h
    split at h
    · rw [Option.some.inj h]
    · apply List.IsSuffix.trans _ (ih h)
      rw [← List.append_assoc]
      exact List.suffix_append _ _

/-- A function whose signature has no brace and no semicolon looks like one. -/
theorem loud_of_plainly {both : Bool} {signature : List Atom} {body : Option (List Atom)} (hplain : Plainly signature)
    (hround : .code '(' ∈ signature) : Loud (Tail.func both signature body).atoms := by
  show Loud (signature ++ bodyAtoms body)
  induction signature with
  | nil => exact absurd hround List.not_mem_nil
  | cons y signature ih =>
    have hrest : Plainly signature := fun c hc => hplain c (List.mem_cons_of_mem y hc)
    rcases y with c | text
    · show (if c = '(' ∨ c = '{' ∨ c = ';' then some c else firstStop (signature ++ bodyAtoms body)) = some '('
      by_cases hc : c = '('
      · rw [if_pos (.inl hc), hc]
      · obtain ⟨hbrace, hsemi⟩ := hplain c List.mem_cons_self
        rw [if_neg (by tauto)]
        apply ih hrest
        rcases List.mem_cons.mp hround with h | h
        · exact absurd (Atom.code.inj h).symm hc
        · exact h
    · apply ih hrest
      rcases List.mem_cons.mp hround with h | h
      · exact absurd h nofun
      · exact h

/-- What is dropped of one declaration. -/
theorem dropped_told_iff {d : Declaration} (hshaped : d.Shaped) (before : List Char) :
    ∃ t u, d.tail.atoms = t ++ u ∧ Ending t ∧ ∀ stop : ℕ,
      stop + (render u).length = before.length + (render d.lead).length + (render d.own).length →
        (((d.DeviceOnly → ∃ s, dropped stop d.tail.atoms ((render (d.lead ++ d.pre)).reverse ++ before) d.marks = [s] ∧
          s.start ≤ before.length + (render d.lead).length ∧
            s.stop = before.length + (render d.lead).length + (render d.own).length) ∧
              (¬d.DeviceOnly → dropped stop d.tail.atoms ((render (d.lead ++ d.pre)).reverse ++ before) d.marks = [])) ↔
          d.SpanGood before) := by
  obtain ⟨-, -, -, htail, hclear, hkind⟩ := hshaped
  unfold Declaration.DeviceOnly Declaration.SpanGood
  rcases hd : d.tail with ⟨type, first, more⟩ | ⟨both, signature, body⟩
  · rw [hd] at htail
    obtain ⟨t, u, hsplit, hend⟩ := exists_ending htail (.inl (List.mem_append_right _ List.mem_cons_self))
    refine ⟨t, u, hsplit, hend, fun stop _ => ?_⟩
    dsimp only
    rw [← dropped_nil_iff stop]
    exact ⟨fun h => h.2 not_false, fun h => ⟨False.elim, fun _ => h⟩⟩
  rw [hd] at hkind
  obtain ⟨hround, hsignature, hbody, hkind⟩ := hkind
  obtain ⟨t, u, hsplit, hend, hplain⟩ := func_ending both hsignature hbody
  refine ⟨t, u, hsplit, hend, fun stop hstop => ?_⟩
  rcases both with _ | _
  swap
  · dsimp only
    rw [← dropped_nil_iff stop]
    exact ⟨fun h => h.2 nofun, fun h => ⟨fun h => absurd h nofun, fun _ => h⟩⟩
  dsimp only
  have hdevice : ∃ m ∈ d.marks, m.1 = .device := hkind
  have hlo : before.length + (render d.lead).length ≤ ((render (d.lead ++ d.pre)).reverse ++ before).length := by
    simp only [render_append, List.length_append, List.length_reverse]
    omega
  have hpasses : ∀ here ∈ firstDevice ((render (d.lead ++ d.pre)).reverse ++ before) d.marks,
      (declStart here).length ≤ before.length + (render d.lead).length ↔
        ∀ c ∈ here.take (here.length - (before.length + (render d.lead).length)), boundary c = false := by
    intro here hhere
    have hle := hlo.trans (firstDevice_suffix hhere).length_le
    obtain ⟨x, w, rfl, hw⟩ : ∃ x w, here = x ++ w ∧ w.length = before.length + (render d.lead).length := by
      refine ⟨_, _, (List.take_append_drop (here.length - (before.length + (render d.lead).length)) here).symm, ?_⟩
      rw [List.length_drop]
      omega
    have hx : (x ++ w).length - w.length = x.length := by
      rw [List.length_append, Nat.add_sub_cancel]
    rw [← hw, declStart_passes_iff, hx, List.take_left]
  have hstops : stop = before.length + (render d.lead).length + (render d.own).length ↔ Plainly signature := by
    rw [← hplain, ← List.length_eq_zero_iff]
    omega
  constructor
  · rintro ⟨hone, -⟩
    obtain ⟨s, hs, hstart, hend⟩ := hone rfl
    have hmem : s ∈ dropped stop (Tail.func false signature body).atoms
        ((render (d.lead ++ d.pre)).reverse ++ before) d.marks := by
      rw [hs]
      exact List.mem_singleton_self s
    have hplainly : Plainly signature := by
      rw [← hstops, ← (dropped_mem hmem).1, hend]
    obtain ⟨-, hfirst⟩ := (dropped_one_iff (loud_of_plainly hplainly hround) hclear hdevice hlo).mp
      ⟨s, hs, hstart, hend⟩
    exact ⟨hplainly, fun here hhere => ⟨(hfirst here hhere).1, (hpasses here hhere).mp (hfirst here hhere).2⟩⟩
  · rintro ⟨hplainly, hfirst⟩
    refine ⟨fun _ => ?_, fun h => absurd rfl h⟩
    apply (dropped_one_iff (loud_of_plainly hplainly hround) hclear hdevice hlo).mpr
    exact ⟨hstops.mpr hplainly, fun here hhere =>
      ⟨(hfirst here hhere).1, (hpasses here hhere).mpr (hfirst here hhere).2⟩⟩

theorem tail_last (d : Declaration) : (render d.atoms).reverse.head?.all boundary = true ∧ render d.atoms ≠ [] := by
  have hlast : ∃ a c, d.atoms = a ++ [.code c] ∧ boundary c = true := by
    unfold Declaration.atoms Declaration.own
    rcases d.tail with ⟨type, first, more⟩ | ⟨both, signature, body⟩
    · refine ⟨d.lead ++ d.pre ++ markAtoms d.marks ++ type ++ first.atoms ++
        more.flatMap (fun d => .code ',' :: d.atoms), ';', ?_, rfl⟩
      simp only [Tail.atoms, List.append_assoc]
    · rcases body with _ | body
      · refine ⟨d.lead ++ d.pre ++ markAtoms d.marks ++ signature, ';', ?_, rfl⟩
        simp only [Tail.atoms, bodyAtoms, List.append_assoc]
      · refine ⟨d.lead ++ d.pre ++ markAtoms d.marks ++ signature ++ .code '{' :: body, '}', ?_, rfl⟩
        simp only [Tail.atoms, bodyAtoms, List.append_assoc, List.cons_append]
  obtain ⟨a, c, hatoms, hc⟩ := hlast
  have hrender : render d.atoms = render a ++ [c] := by
    rw [hatoms, render_append]
    rfl
  rw [hrender, List.reverse_concat]
  exact ⟨hc, by simp⟩

/-- Which functions are told from variables by what is dropped. -/
theorem allTold_iff {p rest : List Atom} {decls : List Declaration} {acc : List Span}
    (hsync : Sync [] (p ++ (declAtoms decls ++ rest))) (hshaped : ∀ d ∈ decls, d.Shaped)
    (hreads : DeclsRead (render p).reverse decls (render rest)) (hacc : ∀ s ∈ acc, s.stop ≤ (render p).length) :
    AllTold (acc ++ spansFrom (render p).reverse (render (declAtoms decls ++ rest))) (render p).length decls ↔
      SpansGood (render p).reverse decls := by
  induction decls generalizing p acc with
  | nil => exact ⟨fun _ => trivial, fun _ => trivial⟩
  | cons d decls ih =>
    obtain ⟨⟨hleadSilent, hpreSilent, hmarks, htailSilent⟩, hreads⟩ := hreads
    have hd := hshaped d List.mem_cons_self
    have hclear : Clear d.marks := hd.2.2.2.2.1
    obtain ⟨t, u, htail, hend, htold⟩ := dropped_told_iff hd (render p).reverse
    have hreverse : ∀ a b : List Atom, (render (a ++ b)).reverse = (render b).reverse ++ (render a).reverse := by
      intro a b
      rw [render_append, List.reverse_append]
    have hatoms : declAtoms (d :: decls) ++ rest =
        d.lead ++ d.pre ++ (markAtoms d.marks ++ (t ++ u ++ (declAtoms decls ++ rest))) := by
      show d.atoms ++ declAtoms decls ++ rest = _
      rw [← htail]
      unfold Declaration.atoms Declaration.own
      simp only [List.append_assoc]
    have hassoc : p ++ (declAtoms (d :: decls) ++ rest) =
        p ++ (d.lead ++ d.pre) ++ (markAtoms d.marks ++ (t ++ u ++ (declAtoms decls ++ rest))) := by
      rw [hatoms]
      simp only [List.append_assoc]
    have hown : p ++ d.atoms = p ++ (d.lead ++ d.pre) ++ (markAtoms d.marks ++ (t ++ u)) := by
      rw [← htail]
      unfold Declaration.atoms Declaration.own
      simp only [List.append_assoc]
    have hwhole : p ++ (declAtoms (d :: decls) ++ rest) = p ++ d.atoms ++ (declAtoms decls ++ rest) := by
      rw [hassoc, hown]
      simp only [List.append_assoc]
    have hhere : Sync (render p).reverse (d.lead ++ d.pre ++
        (markAtoms d.marks ++ (t ++ u ++ (declAtoms decls ++ rest)))) := by
      have hnext := hsync.append
      rwa [List.append_nil, hatoms] at hnext
    have hsilent : Silent (render p).reverse (d.lead ++ d.pre)
        (render (markAtoms d.marks ++ (t ++ u ++ (declAtoms decls ++ rest)))) := by
      apply silent_append_iff.mpr ⟨?_, ?_⟩
      · simpa only [Declaration.own, htail, render_append, List.append_assoc] using hleadSilent
      · simpa only [htail, render_append, List.append_assoc] using hpreSilent
    have hfound : spansFrom (render p).reverse (render (declAtoms (d :: decls) ++ rest)) =
        dropped (render (p ++ (d.lead ++ d.pre) ++ (markAtoms d.marks ++ t))).length d.tail.atoms
          ((render (d.lead ++ d.pre)).reverse ++ (render p).reverse) d.marks ++
            spansFrom (render (p ++ d.atoms)).reverse (render (declAtoms decls ++ rest)) := by
      have hlast : (render (t ++ u)).reverse ++ ((render (markAtoms d.marks)).reverse ++
          (render (p ++ (d.lead ++ d.pre))).reverse) = (render (p ++ d.atoms)).reverse := by
        rw [hown, hreverse (p ++ _), hreverse (markAtoms d.marks), List.append_assoc]
      rw [hatoms, spansFrom_silent hhere hsilent, ← hreverse, spansFrom_marks (hassoc ▸ hsync) hclear, hlast, htail]
      · rw [hreverse, ← htail, render_append (declAtoms decls)]
        exact hmarks
      · rw [hreverse p, ← List.append_assoc, ← hreverse, ← htail, render_append (declAtoms decls)]
        exact htailSilent
      · exact hend
    have hstop : (render (p ++ (d.lead ++ d.pre) ++ (markAtoms d.marks ++ t))).length + (render u).length =
        (render p).reverse.length + (render d.lead).length + (render d.own).length := by
      unfold Declaration.own
      rw [htail]
      simp only [render_append, List.length_append, List.length_reverse]
      omega
    have hhi : (render p).length + (render d.lead).length + (render d.own).length = (render (p ++ d.atoms)).length := by
      unfold Declaration.atoms
      simp only [render_append, List.length_append]
      omega
    have hmine : ∀ s ∈ dropped (render (p ++ (d.lead ++ d.pre) ++ (markAtoms d.marks ++ t))).length d.tail.atoms
        ((render (d.lead ++ d.pre)).reverse ++ (render p).reverse) d.marks,
          s.start < (render (p ++ d.atoms)).length ∧ (render p).length + (render d.lead).length < s.stop ∧
            s.stop ≤ (render (p ++ d.atoms)).length := by
      intro s hs
      obtain ⟨hstop, x, hstart, -, hx⟩ := dropped_mem hs
      have hle := declStart_le (x ++ ((render (d.lead ++ d.pre)).reverse ++ (render p).reverse))
      rw [← hstart] at hle
      rw [hown]
      simp only [render_append, List.length_append, List.length_reverse] at hstop hle ⊢
      omega
    have hlater : ∀ s ∈ spansFrom (render (p ++ d.atoms)).reverse (render (declAtoms decls ++ rest)),
        (render (p ++ d.atoms)).length ≤ s.start := by
      intro s hs
      have hbase : (render (p ++ d.atoms)).reverse.head?.all boundary = true := by
        obtain ⟨hlast, hne⟩ := tail_last d
        rw [hreverse, List.head?_append_of_ne_nil]
        · exact hlast
        · simpa using hne
      have hbound := spansFrom_bound (x := []) hbase hs
      rwa [List.length_reverse] at hbound
    -- those of this declaration are told from the others by where they start and end
    have hthis : d.Told ((render p).length + (render d.lead).length)
        (acc ++ spansFrom (render p).reverse (render (declAtoms (d :: decls) ++ rest))) ↔ d.SpanGood (render p).reverse := by
      rw [← htold _ hstop, hfound]
      unfold Declaration.Told
      dsimp only
      rw [hhi, List.filter_append, List.filter_append, List.filter_eq_nil_iff.mpr, List.filter_eq_self.mpr,
        List.filter_eq_nil_iff.mpr, List.nil_append, List.append_nil, List.length_reverse, hhi]
      · intro s hs
        have hbound := hlater s hs
        simp only [decide_eq_true_eq, not_and, not_lt]
        omega
      · intro s hs
        have hbound := hmine s hs
        rw [decide_eq_true_eq]
        exact ⟨hbound.1, hbound.2.1⟩
      · intro s hs
        have hbound := hacc s hs
        simp only [decide_eq_true_eq, not_and, not_lt]
        omega
    have hnext : (render p).length + (render d.atoms).length = (render (p ++ d.atoms)).length := by
      rw [render_append, List.length_append]
    show d.Told _ _ ∧ AllTold _ ((render p).length + (render d.atoms).length) decls ↔
      d.SpanGood _ ∧ SpansGood ((render d.atoms).reverse ++ (render p).reverse) decls
    rw [← hreverse] at hreads ⊢
    rw [hthis, hnext, hfound, ← List.append_assoc, ih (hwhole ▸ hsync)
      (fun x hx => hshaped x (List.mem_cons_of_mem d hx)) hreads]
    intro s hs
    rcases List.mem_append.mp hs with hs | hs
    · have hbound := hacc s hs
      omega
    · exact (hmine s hs).2.2

theorem exists_spanGood {before : List Char} {decls : List Declaration} (h : SpansGood before decls) :
    ∀ d ∈ decls, ∃ before, d.SpanGood before := by
  induction decls generalizing before with
  | nil => exact fun d hd => absurd hd List.not_mem_nil
  | cons d decls ih =>
    intro x hx
    rcases List.mem_cons.mp hx with rfl | hx
    · exact ⟨before, h.1⟩
    · exact ih h.2 x hx

/-- A function that is told from variables looks like a function. -/
theorem Declaration.SpanGood.loud {before : List Char} {d : Declaration} (h : d.SpanGood before) (hshaped : d.Shaped)
    (both : Bool) (signature : List Atom) (body : Option (List Atom)) (hd : d.tail = .func both signature body) :
    Loud d.tail.atoms := by
  obtain ⟨-, -, -, -, -, hkind⟩ := hshaped
  unfold Declaration.SpanGood at h
  rw [hd] at h hkind ⊢
  obtain ⟨hround, -, -, hkind⟩ := hkind
  rcases both with _ | _
  · exact loud_of_plainly h.1 hround
  · exact hkind

/-- Variables and code for the device only are told apart: the variables that are recorded are those that are declared,
with their constant flags, each by a mark of its own declaration; each function for the device only is one span, and
no span has a part of anything else that is declared. -/
def File.ToldApart (f : File) : Prop :=
  (findDeviceVars f.text).map (fun v => (v.name, v.isConstant)) =
      (f.decls.flatMap fun d => d.names.map (·, d.constant)) ∧
    AllRecorded (varsFrom f.text [] f.text) 0 f.decls ∧ AllTold (findDeviceOnly f.text) 0 f.decls

def File.Good (f : File) : Prop :=
  (∀ d ∈ f.decls, d.VarGood) ∧ SpansGood [] f.decls

theorem told_iff (f : File) (h : f.Reads) : f.ToldApart ↔ f.Good := by
  obtain ⟨hsync, hshaped, hreads, hrest⟩ := h
  have hspans : AllTold (findDeviceOnly f.text) 0 f.decls ↔ SpansGood [] f.decls :=
    @allTold_iff [] f.rest f.decls [] hsync hshaped hreads nofun
  have hloud : SpansGood [] f.decls →
      ∀ d ∈ f.decls, ∀ both signature body, d.tail = .func both signature body → Loud d.tail.atoms := by
    intro hgood d hd
    obtain ⟨before, hspan⟩ := exists_spanGood hgood d hd
    exact hspan.loud (hshaped d hd)
  have hvars : SpansGood [] f.decls →
      (AllRecorded (varsFrom f.text [] f.text) 0 f.decls ↔ ∀ d ∈ f.decls, d.VarGood) := fun hgood =>
    @allRecorded_iff f.text [] f.rest f.decls [] rfl hsync rfl hshaped (hloud hgood) hreads nofun
  constructor
  · rintro ⟨-, hrecorded, htold⟩
    exact ⟨(hvars (hspans.mp htold)).mp hrecorded, hspans.mp htold⟩
  · rintro ⟨hvar, hspan⟩
    refine ⟨?_, (hvars hspan).mpr hvar, hspans.mpr hspan⟩
    unfold findDeviceVars
    rw [List.map_map]
    exact varsFrom_file f.text (p := []) rfl hsync rfl hshaped (hloud hspan) hreads hrest hvar

/-- `__device__ T x`, with something behind the name, and a semicolon. -/
def oneVar (behind : List Char) : Declaration where
  lead := []
  pre := []
  marks := [(.device, [])]
  tail := .var [.code ' ', .code 'T', .code ' '] ⟨[], ['x'], behind.map .code, by decide, by decide⟩ []

theorem oneVar_reads {behind : List Char} (hbehind : ∀ c ∈ behind, Ordinary c ∧ c ≠ '{' ∧ c ≠ '}')
    (hsilent : Silent (Mark.device.word.reverse ++ []) (oneVar behind).tail.atoms [])
    (hmark : markAt [] (render (oneVar behind).atoms) = some .device) : File.Reads ⟨[oneVar behind], []⟩ := by
  have hfixed : ∀ c ∈ [' ', 'T', ' ', 'x'], Ordinary c ∧ c ≠ '{' ∧ c ≠ '}' := by decide
  have hall : ∀ c ∈ [' ', 'T', ' ', 'x'] ++ (behind ++ [';']), Ordinary c ∧ c ≠ '{' ∧ c ≠ '}' := by
    intro c hc
    rcases List.mem_append.mp hc with hc | hc
    · exact hfixed c hc
    · rcases List.mem_append.mp hc with hc | hc
      · exact hbehind c hc
      · rw [List.mem_singleton.mp hc]
        decide
  have htail : (oneVar behind).tail.atoms = ([' ', 'T', ' ', 'x'] ++ (behind ++ [';'])).map .code := by
    simp [oneVar, Tail.atoms, Declarator.atoms]
  have hatoms : (File.mk [oneVar behind] []).atoms =
      (Mark.device.word ++ ([' ', 'T', ' ', 'x'] ++ (behind ++ [';']))).map .code := by
    rw [List.map_append, ← htail]
    simp [File.atoms, declAtoms, Declaration.atoms, Declaration.own, markAtoms, oneVar]
  refine ⟨?_, ?_, ⟨⟨trivial, trivial, ⟨?_, trivial, trivial⟩, ?_⟩, trivial⟩, trivial⟩
  · rw [hatoms]
    unfold Sync
    rw [render_code]
    apply scan_ordinary
    intro c hc
    exact (List.mem_append.mp hc).elim (word_ordinary .device c) fun hc => (hall c hc).1
  · intro d hd
    rw [List.mem_singleton.mp hd]
    refine ⟨List.cons_ne_nil _ _, rfl, rfl, ?_, ?_, trivial⟩
    · rw [htail, ← List.append_nil (List.map _ _), nested_append_iff]
      · rfl
      · intro c hc
        obtain ⟨x, hx, hsame⟩ := List.mem_map.mp hc
        rw [← Atom.code.inj hsame]
        exact (hall x hx).2
    · intro m hm c hc
      rw [List.mem_singleton.mp hm] at hc
      exact absurd hc List.not_mem_nil
  · exact hmark
  · exact hsilent

theorem told_iff_plain : File.Reads ⟨[oneVar []], []⟩ ∧ File.ToldApart ⟨[oneVar []], []⟩ := by
  have hreads : File.Reads ⟨[oneVar []], []⟩ := by
    apply oneVar_reads (fun c hc => absurd hc List.not_mem_nil) _ (by decide)
    exact ⟨by decide, by decide, by decide, by decide, by decide, trivial⟩
  refine ⟨hreads, (told_iff _ hreads).mpr ⟨?_, ⟨fun _ hloud => absurd hloud (by decide), trivial⟩, trivial⟩⟩
  intro d hd
  rw [List.mem_singleton.mp hd]
  refine ⟨rfl, ?_⟩
  show if Loud _ then _ else _
  rw [if_neg (by decide)]
  exact ⟨rfl, [' ', 'T', ' '], [], rfl, rfl, fun c hc => absurd hc List.not_mem_nil⟩

/-- Not so with an initializer in brackets: `__device__ T x(1);`. -/
theorem told_iff_not : ¬∀ f : File, f.Reads → f.ToldApart := by
  intro h
  have hreads : File.Reads ⟨[oneVar ['(', '1', ')']], []⟩ := by
    apply oneVar_reads (by decide) _ (by decide)
    exact ⟨by decide, by decide, by decide, by decide, by decide, by decide, by decide, by decide, trivial⟩
  obtain ⟨-, -, htold⟩ := h _ hreads
  obtain ⟨hsync, hshaped, hdecls, -⟩ := hreads
  obtain ⟨hgood, -⟩ := (@allTold_iff [] [] [oneVar ['(', '1', ')']] [] hsync hshaped hdecls nofun).mp htold
  have hhost : forHost [] = false := by
    unfold forHost
    rw [headOf_eq]
    rfl
  -- the bracket makes it look like a function
  have htrue : forHost [] = true := hgood.1 rfl (by decide)
  rw [hhost] at htrue
  exact absurd htrue nofun

end Grxcp.Grxcc
