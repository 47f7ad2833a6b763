import SippyB2bua.Message
import SippyB2bua.Lib.Breaks
import SippyB2bua.Lib.Fallible
import SippyB2bua.Lib.Lines
import SippyB2bua.Lib.Trim

/-!
# Commands for the RTP proxy, as the proxy's side reads them

The options of an update are written one behind another without a separator. A loop takes one
after the other off the front of the text; the printer writes them back in an order of its own.
-/

namespace SippyB2bua.Rtpp
open Lib (Text)
open Lib.Text (PlainWord isSpace lstrip strip wordsMax splitAll cut ofInt)

def extractToNextToken (s : Text) (chars : List Char) (invert : Bool) : Text × Text :=
  let p := fun c => (chars.contains c) != invert
  (s.takeWhile p, s.dropWhile p)

def addressChars : List Char := "1234567890.".toList
def codecsChars : List Char := "1234567890,".toList

structure UpdateLookupOpts where
  destinationIp : Option Text
  localIp : Option Text
  codecs : Option (List ℤ)
  otherparams : Option Text
  remoteIp : Option Text
  remotePort : Option Text
  fromTag : Option Text
  toTag : Option Text
  notifySocket : Option Text
  notifyTag : Option Text
  subargs : Option Text
  deriving DecidableEq, Repr

namespace UpdateLookupOpts

def empty : UpdateLookupOpts := ⟨none, none, none, some [], none, none, none, none, none, none, none⟩

/-- One turn of the loop on a text that begins with `c`: the options so far and the rest. -/
def turn (o : UpdateLookupOpts) (c : Char) (cs : Text) : Except Exn (UpdateLookupOpts × Text) :=
  if c = 'R' then
    let r := extractToNextToken cs addressChars false
    let val := strip r.1
    .ok (if val ≠ [] then { o with destinationIp := some val } else o, r.2)
  else if c = 'L' then
    let r := extractToNextToken cs addressChars false
    let val := strip r.1
    .ok (if val ≠ [] then { o with localIp := some val } else o, r.2)
  else if c = 'c' then
    let r := extractToNextToken cs codecsChars false
    let val := strip r.1
    if val ≠ [] then
      match (splitAll ',' val).mapM Lib.Text.int with
      | none => .error .valueError
      | some codecs => .ok ({ o with codecs := some codecs }, r.2)
    else .ok (o, r.2)
  else
    let r := extractToNextToken (c :: cs) ['c', 'R'] true
    .ok (if r.1 ≠ [] then { o with otherparams := some (o.otherparams.getD [] ++ r.1) } else o, r.2)

/-- `n` turns at most; `none` if the text is not read by then. -/
def loop : ℕ → UpdateLookupOpts → Text → Option (Except Exn UpdateLookupOpts)
  | _, o, [] => some (.ok o)
  | 0, _, _ :: _ => none
  | n + 1, o, c :: cs =>
    match o.turn c cs with
    | .error e => some (.error e)
    | .ok p => loop n p.1 p.2

def read (o : UpdateLookupOpts) (s : Text) : Except Exn UpdateLookupOpts :=
  (loop s.length o s).getD (.error .other)

/-- `UpdateLookupOpts(s)`. -/
def init (s : Text) : Except Exn UpdateLookupOpts := empty.read s

def addressText (c : Char) (o : Option Text) : Text := o.elim [] (c :: ·)

def codecsText (o : Option (List ℤ)) : Text :=
  o.elim [] fun codecs => ('c' :: codecs.flatMap fun codec => ofInt codec ++ [',']).dropLast

/-- The options as `getstr` writes them. -/
def optionsText (o : UpdateLookupOpts) : Text :=
  addressText 'R' o.destinationIp ++ (addressText 'L' o.localIp ++ (codecsText o.codecs ++ o.otherparams.getD []))

def argument (o : Option Text) : Text := o.elim [] (' ' :: ·)

def separator : Text := " && ".toList

def getstr (o : UpdateLookupOpts) (callId : Option Text) (swaptags skipnotify : Bool) : Except Exn Text := do
  let (fromTag, toTag) ←
    if swaptags then
      match o.toTag with
      | none => .error .other
      | some toTag => pure (some toTag, o.fromTag)
    else pure (o.fromTag, o.toTag)
  let notify := if skipnotify then [] else argument o.notifySocket ++ argument o.notifyTag
  return o.optionsText ++ (' ' :: callId.getD "None".toList ++ (argument o.remoteIp ++ (argument o.remotePort ++
    (argument fromTag ++ (argument toTag ++ (notify ++ o.subargs.elim [] (separator ++ ·)))))))

def readTail (o : UpdateLookupOpts) (tail : Text) : Except Exn UpdateLookupOpts :=
  match wordsMax 2 tail with
  | [toTag] => .ok { o with toTag := some toTag }
  | [notifySocket, notifyTag] => .ok { o with notifySocket := some notifySocket, notifyTag := some notifyTag }
  | [toTag, notifySocket, notifyTag] =>
    .ok { o with toTag := some toTag, notifySocket := some notifySocket, notifyTag := some notifyTag }
  | _ => .error .valueError

def readWords (o : UpdateLookupOpts) (args : Text) : Except Exn UpdateLookupOpts :=
  match wordsMax 2 args with
  | [remoteIp, remotePort, rest] =>
    let o := { o with remoteIp := some remoteIp, remotePort := some remotePort }
    match wordsMax 1 rest with
    | [] => .error .indexError
    | [fromTag] => .ok { o with fromTag := some fromTag }
    | fromTag :: tail :: _ => readTail { o with fromTag := some fromTag } tail
  | _ => .error .valueError

/-- The arguments of an update or a lookup. -/
def readArgs (o : UpdateLookupOpts) (args : Text) : Except Exn UpdateLookupOpts :=
  match cut separator args with
  | some (args, subargs) => readWords { o with subargs := some subargs } args
  | none => readWords o args

end UpdateLookupOpts

structure RtpProxyCmd where
  type : Text
  ulOpts : Option UpdateLookupOpts
  commandOpts : Option Text
  callId : Option Text
  args : Option Text
  deriving DecidableEq, Repr

namespace RtpProxyCmd

/-- `cmd[0].upper()`. Among the letters outside of ASCII, `'ſ'` has a type's letter as its capital. -/
def typeOf (c : Char) : Text := if c = 'ſ' then ['S'] else [c.toUpper]

def updateTypes : List Text := ["U".toList, "L".toList]
def argsTypes : List Text := ["D".toList, "P".toList, "S".toList, "R".toList, "C".toList, "Q".toList]
def getType : Text := "G".toList

/-- `Rtp_proxy_cmd(cmd)`. -/
def init : Text → Except Exn RtpProxyCmd
  | [] => .error .indexError
  | c :: cs =>
    let type := typeOf c
    if type ∈ updateTypes ++ argsTypes then
      match wordsMax 2 (c :: cs) with
      | [commandOpts, callId, args] =>
        if type ∈ updateTypes then do
          let o ← UpdateLookupOpts.init (commandOpts.drop 1)
          let o ← o.readArgs args
          return ⟨type, some o, none, some callId, none⟩
        else .ok ⟨type, none, some (commandOpts.drop 1), some callId, some args⟩
      | _ => .error .valueError
    else if type = getType then
      match cs with
      | [] => .error .indexError
      | d :: _ =>
        if isSpace d then .ok ⟨type, none, none, none, some (strip cs)⟩
        else
          match wordsMax 1 cs with
          | [] => .error .indexError
          | [commandOpts] => .ok ⟨type, none, some commandOpts, none, none⟩
          | commandOpts :: args :: _ => .ok ⟨type, none, some commandOpts, none, some args⟩
    else .ok ⟨type, none, some cs, none, none⟩

def str (cmd : RtpProxyCmd) : Except Exn Text := do
  let s ←
    match cmd.ulOpts with
    | some o => o.getstr cmd.callId false false
    | none => pure (cmd.commandOpts.getD [] ++ UpdateLookupOpts.argument cmd.callId)
  return cmd.type ++ (s ++ UpdateLookupOpts.argument cmd.args)

def types : List Text := updateTypes ++ argsTypes ++ [getType]

end RtpProxyCmd

namespace UpdateLookupOpts
section Loop
variable {o o' : UpdateLookupOpts} {s t cs rest v : Text} {c d : Char} {n : ℕ}

def optionChars (c : Char) : List Char := if c = 'c' then codecsChars else addressChars

def IsOption (c : Char) : Prop := c = 'R' ∨ c = 'L' ∨ c = 'c'

instance : Decidable (IsOption c) := inferInstanceAs (Decidable (_ ∨ _))

theorem extract_eq (s : Text) (chars : List Char) (invert : Bool) : extractToNextToken s chars invert =
    (s.takeWhile fun c => (chars.contains c) != invert, s.dropWhile fun c => (chars.contains c) != invert) := rfl

theorem mem_extract {chars : List Char} (hc : c ∈ strip (extractToNextToken s chars false).1) : c ∈ chars := by
  have hmem := (Lib.Text.strip_sublist _).subset hc
  have htest := List.mem_takeWhile_imp hmem
  simpa using htest

theorem int_nonneg {n : ℤ} (h : Lib.Text.int s = some n) (hminus : '-' ∉ s) : 0 ≤ n := by
  unfold Lib.Text.int at h
  split at h
  · rename_i ds hs
    have hmem : '-' ∈ strip s := hs ▸ List.mem_cons_self
    exact absurd ((Lib.Text.strip_sublist s).subset hmem) hminus
  · obtain ⟨ds, -, hn⟩ := Option.map_eq_some_iff.mp h
    omega
  · obtain ⟨ds, -, hn⟩ := Option.map_eq_some_iff.mp h
    omega

theorem codecs_read {ns : List ℤ} (hv : ∀ c ∈ v, c ∈ codecsChars)
    (h : (splitAll ',' v).mapM Lib.Text.int = some ns) : ns ≠ [] ∧ ∀ n ∈ ns, 0 ≤ n := by
  constructor
  · rintro rfl
    cases hsplit : splitAll ',' v with
    | nil => exact Lib.Text.splitAll_ne_nil ',' v hsplit
    | cons w ws =>
      rw [hsplit, List.mapM_cons] at h
      obtain ⟨n, -, h⟩ := Option.bind_eq_some_iff.mp h
      obtain ⟨ns, -, h⟩ := Option.bind_eq_some_iff.mp h
      exact nomatch h
  · intro n hn
    obtain ⟨w, hw, hint⟩ := Lib.mem_mapM h hn
    apply int_nonneg hint
    intro hminus
    have hmem := hv _ (Lib.Text.mem_of_mem_splitAll hw hminus)
    exact absurd hmem (by decide)

def IsAddress (v : Text) : Prop := v ≠ [] ∧ ∀ c ∈ v, c ∈ addressChars

def IsCodecs (ns : List ℤ) : Prop := ns ≠ [] ∧ ∀ n ∈ ns, 0 ≤ n

/-- What an option's turn does to the options. -/
inductive Sets (o : UpdateLookupOpts) : UpdateLookupOpts → Prop
  | nothing : Sets o o
  | destinationIp {v : Text} (hv : IsAddress v) : Sets o { o with destinationIp := some v }
  | localIp {v : Text} (hv : IsAddress v) : Sets o { o with localIp := some v }
  | codecs {ns : List ℤ} (hns : IsCodecs ns) : Sets o { o with codecs := some ns }

/-- An option is read up to the first character that is not one of its own. -/
theorem turn_option {p : UpdateLookupOpts × Text} (hc : IsOption c) (h : o.turn c cs = .ok p) :
    p.2 = cs.dropWhile (fun d => (optionChars c).contains d) ∧ Sets o p.1 := by
  have hrest (chars : List Char) : (extractToNextToken cs chars false).2 =
      cs.dropWhile fun d => chars.contains d := by
    rw [extract_eq]
    simp only [Bool.bne_false]
  unfold turn at h
  rcases hc with rfl | rfl | rfl
  · rw [if_pos rfl] at h
    cases h
    refine ⟨hrest _, ?_⟩
    dsimp only
    split
    · exact .destinationIp ⟨‹_›, fun d => mem_extract⟩
    · exact .nothing
  · rw [if_neg (by decide), if_pos rfl] at h
    cases h
    refine ⟨hrest _, ?_⟩
    dsimp only
    split
    · exact .localIp ⟨‹_›, fun d => mem_extract⟩
    · exact .nothing
  · rw [if_neg (by decide), if_neg (by decide), if_pos rfl] at h
    dsimp only at h
    split at h
    · split at h
      · exact nomatch h
      · rename_i ns hns
        cases h
        exact ⟨hrest _, .codecs (codecs_read (fun d => mem_extract) hns)⟩
    · cases h
      exact ⟨hrest _, .nothing⟩

theorem Sets.otherparams (h : Sets o o') : o'.otherparams = o.otherparams := by
  cases h <;> rfl

/-- Anything else is read up to the next `c` or `R`. -/
theorem turn_other (hc : ¬ IsOption c) : o.turn c cs =
    .ok ({ o with otherparams := some (o.otherparams.getD [] ++ (c :: cs).takeWhile fun d => d ≠ 'c' ∧ d ≠ 'R') },
      cs.dropWhile fun d => d ≠ 'c' ∧ d ≠ 'R') := by
  have hbool : (fun d => (['c', 'R'].contains d) != true) = fun d : Char => decide (d ≠ 'c' ∧ d ≠ 'R') := by
    funext d
    simp only [List.contains_cons, List.contains_nil, Bool.or_false, Bool.bne_true, Bool.not_or]
    by_cases hd : d = 'c' <;> by_cases hd' : d = 'R' <;> simp [hd, hd']
  simp only [IsOption, not_or] at hc
  obtain ⟨hR, hL, hcodecs⟩ := hc
  unfold turn
  simp only [extract_eq, hbool]
  rw [if_neg hR, if_neg hL, if_neg hcodecs]
  simp [hR, hcodecs]

theorem turn_shorter {p : UpdateLookupOpts × Text} (h : o.turn c cs = .ok p) : p.2.length ≤ cs.length := by
  by_cases hc : IsOption c
  · rw [(turn_option hc h).1]
    exact (List.dropWhile_sublist _).length_le
  · rw [turn_other hc] at h
    cases h
    exact (List.dropWhile_sublist _).length_le

theorem loop_nil (n : ℕ) (o : UpdateLookupOpts) : loop n o [] = some (.ok o) := by
  cases n <;> rfl

theorem loop_ends (h : s.length ≤ n) : (loop n o s).isSome := by
  induction n generalizing o s with
  | zero =>
    rw [List.length_eq_zero_iff.mp (Nat.le_zero.mp h)]
    rfl
  | succ n ih =>
    cases s with
    | nil => rfl
    | cons c cs =>
      rw [loop]
      cases hturn : o.turn c cs with
      | error e => rfl
      | ok p =>
        have hlen := turn_shorter hturn
        rw [List.length_cons] at h
        exact ih (by omega)

theorem loop_enough {m : ℕ} (hn : s.length ≤ n) (hm : s.length ≤ m) : loop n o s = loop m o s := by
  induction n generalizing o s m with
  | zero =>
    rw [List.length_eq_zero_iff.mp (Nat.le_zero.mp hn), loop_nil, loop_nil]
  | succ n ih =>
    cases s with
    | nil => rw [loop_nil, loop_nil]
    | cons c cs =>
      obtain ⟨m, rfl⟩ : ∃ m', m = m' + 1 := ⟨m - 1, by rw [List.length_cons] at hm; omega⟩
      rw [loop, loop]
      cases hturn : o.turn c cs with
      | error e => rfl
      | ok p =>
        have hlen := turn_shorter hturn
        rw [List.length_cons] at hn hm
        exact ih (by omega) (by omega)

theorem loop_terminates (o : UpdateLookupOpts) (h : s.length ≤ n) : loop n o s = some (o.read s) := by
  have hends : (loop s.length o s).isSome := loop_ends le_rfl
  obtain ⟨r, hr⟩ := Option.isSome_iff_exists.mp hends
  rw [loop_enough h le_rfl, read, hr]
  rfl

@[simp] theorem read_nil : o.read [] = .ok o := rfl

theorem read_cons : o.read (c :: cs) = (o.turn c cs).bind fun p => p.1.read p.2 := by
  have hloop := @loop_terminates (c :: cs) (cs.length + 1) o le_rfl
  rw [loop] at hloop
  cases hturn : o.turn c cs with
  | error e =>
    rw [hturn] at hloop
    exact (Option.some.inj hloop).symm
  | ok p =>
    rw [hturn] at hloop
    dsimp only at hloop
    rw [loop_terminates p.1 (turn_shorter hturn)] at hloop
    exact (Option.some.inj hloop).symm

theorem read_invariant {P : UpdateLookupOpts → Text → Prop}
    (hstep : ∀ o c cs p, P o (c :: cs) → o.turn c cs = .ok p → P p.1 p.2) (h : P o s)
    (hread : o.read s = .ok o') : P o' [] := by
  generalize hn : s.length = n
  induction n using Nat.strong_induction_on generalizing o s with
  | _ n ih =>
    cases s with
    | nil =>
      cases hread
      exact h
    | cons c cs =>
      rw [read_cons] at hread
      cases hturn : o.turn c cs with
      | error e =>
        rw [hturn] at hread
        exact nomatch hread
      | ok p =>
        rw [hturn] at hread
        have hlen := turn_shorter hturn
        rw [List.length_cons] at hn
        exact ih p.2.length (by omega) (hstep o c cs p h hturn) hread rfl

end Loop

/-- The options of an object that was read. -/
structure Lexed (o : UpdateLookupOpts) : Prop where
  destinationIp : ∀ v ∈ o.destinationIp, IsAddress v
  localIp : ∀ v ∈ o.localIp, IsAddress v
  codecs : ∀ ns ∈ o.codecs, IsCodecs ns
  other : ∃ t, o.otherparams = some t ∧ (∀ c ∈ t, c ≠ 'c' ∧ c ≠ 'R' ∧ isSpace c = false) ∧ t.head? ≠ some 'L'

theorem lexed_empty : empty.Lexed := by
  refine ⟨?_, ?_, ?_, [], rfl, ?_, ?_⟩ <;> simp [empty]

def SameWords (o o' : UpdateLookupOpts) : Prop :=
  o' = { o with destinationIp := o'.destinationIp, localIp := o'.localIp, codecs := o'.codecs,
                otherparams := o'.otherparams }

section Lexed
variable {o o' e : UpdateLookupOpts} {s t cs rest v : Text} {c d : Char} {n : ℕ}

theorem Sets.lexed (h : Sets o o') (ho : o.Lexed) : o'.Lexed := by
  cases h with
  | nothing => exact ho
  | destinationIp hv => exact ⟨fun w hw => Option.mem_some.mp hw ▸ hv, ho.localIp, ho.codecs, ho.other⟩
  | localIp hv => exact ⟨ho.destinationIp, fun w hw => Option.mem_some.mp hw ▸ hv, ho.codecs, ho.other⟩
  | codecs hns => exact ⟨ho.destinationIp, ho.localIp, fun w hw => Option.mem_some.mp hw ▸ hns, ho.other⟩

theorem Lexed.turn {p : UpdateLookupOpts × Text} (ho : o.Lexed) (hs : ∀ d ∈ c :: cs, isSpace d = false)
    (h : o.turn c cs = .ok p) : p.1.Lexed := by
  by_cases hc : IsOption c
  · exact (turn_option hc h).2.lexed ho
  · rw [turn_other hc] at h
    cases h
    simp only [IsOption, not_or] at hc
    obtain ⟨t, ht, hclean, hhead⟩ := ho.other
    refine ⟨ho.destinationIp, ho.localIp, ho.codecs, _, rfl, fun d hd => ?_, ?_⟩
    · rw [ht, Option.getD_some] at hd
      rcases List.mem_append.mp hd with hd | hd
      · exact hclean d hd
      · have htest := List.mem_takeWhile_imp hd
        have hspace := hs d ((List.takeWhile_sublist _).subset hd)
        simp only [decide_eq_true_eq] at htest
        exact ⟨htest.1, htest.2, hspace⟩
    · rw [ht, Option.getD_some]
      cases t with
      | nil =>
        rw [List.takeWhile_cons_of_pos (by simp [hc]), List.nil_append, List.head?_cons]
        exact fun h => hc.2.1 (Option.some.inj h)
      | cons d t => exact hhead

theorem SameWords.turn {p : UpdateLookupOpts × Text} (he : SameWords e o) (h : o.turn c cs = .ok p) :
    SameWords e p.1 := by
  by_cases hc : IsOption c
  · obtain ⟨-, hset⟩ := turn_option hc h
    generalize p.1 = o' at hset
    cases hset with
    | nothing => exact he
    | destinationIp hv | localIp hv | codecs hns => rw [SameWords, he]
  · rw [turn_other hc] at h
    cases h
    rw [SameWords, he]

theorem turn_rest_mem {p : UpdateLookupOpts × Text} (h : o.turn c cs = .ok p) (hd : d ∈ p.2) : d ∈ cs := by
  by_cases hc : IsOption c
  · rw [(turn_option hc h).1] at hd
    exact (List.dropWhile_sublist _).subset hd
  · rw [turn_other hc] at h
    cases h
    exact (List.dropWhile_sublist _).subset hd

theorem init_lexed (hs : ∀ c ∈ s, isSpace c = false) (h : init s = .ok o) : o.Lexed := by
  have hinv := @read_invariant empty o s
    (fun o s => o.Lexed ∧ ∀ c ∈ s, isSpace c = false)
    (fun o c cs p hp hturn => ⟨hp.1.turn hp.2 hturn,
      fun d hd => hp.2 d (List.mem_cons_of_mem c (turn_rest_mem hturn hd))⟩)
    ⟨lexed_empty, hs⟩ h
  exact hinv.1

theorem init_sameWords (h : init s = .ok o) : SameWords empty o :=
  @read_invariant empty o s (fun o _ => SameWords empty o) (fun _ _ _ _ he hturn => he.turn hturn) rfl h

theorem read_otherparams (h : o.read s = .ok o') :
    (o'.otherparams.getD []).length ≤ (o.otherparams.getD []).length + s.length := by
  have hinv := @read_invariant o o' s
    (fun x t => (x.otherparams.getD []).length + t.length ≤ (o.otherparams.getD []).length + s.length)
    (fun x c cs p hp hturn => ?_) le_rfl h
  · simpa using hinv
  · have hlen := turn_shorter hturn
    rw [List.length_cons] at hp
    by_cases hc : IsOption c
    · rw [(turn_option hc hturn).2.otherparams]
      omega
    · rw [turn_other hc] at hturn
      cases hturn
      have hsum := congrArg List.length
        (@List.takeWhile_append_dropWhile _ (fun d : Char => decide (d ≠ 'c' ∧ d ≠ 'R')) (c :: cs))
      simp only [IsOption, not_or] at hc
      have hdrop : (c :: cs).dropWhile (fun d : Char => decide (d ≠ 'c' ∧ d ≠ 'R')) =
          cs.dropWhile (fun d : Char => decide (d ≠ 'c' ∧ d ≠ 'R')) :=
        List.dropWhile_cons_of_pos (by simp [hc])
      rw [hdrop, List.length_append, List.length_cons] at hsum
      simp only [Option.getD_some, List.length_append]
      omega

end Lexed

section Written
variable {o o' e : UpdateLookupOpts} {s t cs rest v : Text} {c d : Char} {n : ℕ} {chars : List Char}

theorem extract_append (hv : ∀ c ∈ v, c ∈ chars) (hrest : ∀ c ∈ rest.head?, c ∉ chars) :
    extractToNextToken (v ++ rest) chars false = (v, rest) := by
  have hpos : ∀ c ∈ v, (chars.contains c != false) = true := fun c hc => by simp [hv c hc]
  rw [extract_eq, List.takeWhile_append_of_pos hpos, List.dropWhile_append_of_pos hpos]
  cases rest with
  | nil => simp
  | cons d rest =>
    have hd : d ∉ chars := hrest d rfl
    simp [hd]

theorem strip_address (h : ∀ c ∈ v, c ∈ addressChars ∨ c ∈ codecsChars) : strip v = v := by
  apply Lib.Text.stripBy_clean
  intro c hc
  have hall : ∀ c, c ∈ addressChars ∨ c ∈ codecsChars → isSpace c = false := by
    intro c hc
    rcases hc with hc | hc
    · exact (by decide : ∀ c ∈ addressChars, isSpace c = false) c hc
    · exact (by decide : ∀ c ∈ codecsChars, isSpace c = false) c hc
  exact hall c (h c hc)

theorem read_destinationIp (hv : ∀ v ∈ o.destinationIp, IsAddress v)
    (hrest : o.destinationIp.isSome → ∀ c ∈ rest.head?, c ∉ addressChars) (he : e.destinationIp = none) :
    e.read (addressText 'R' o.destinationIp ++ rest) = ({ e with destinationIp := o.destinationIp }).read rest := by
  cases hd : o.destinationIp with
  | none =>
    have hsame : ({ e with destinationIp := none } : UpdateLookupOpts) = e := by rw [← he]
    rw [hsame]
    rfl
  | some v =>
    obtain ⟨hne, hchars⟩ := hv v hd
    have hrest' := hrest (by rw [hd]; rfl)
    have hturn : e.turn 'R' (v ++ rest) = .ok ({ e with destinationIp := some v }, rest) := by
      unfold turn
      rw [if_pos rfl, extract_append hchars hrest']
      dsimp only
      rw [strip_address fun c hc => .inl (hchars c hc), if_pos hne]
    rw [addressText, Option.elim_some, List.cons_append, read_cons, hturn]
    rfl

theorem read_localIp (hv : ∀ v ∈ o.localIp, IsAddress v)
    (hrest : o.localIp.isSome → ∀ c ∈ rest.head?, c ∉ addressChars) (he : e.localIp = none) :
    e.read (addressText 'L' o.localIp ++ rest) = ({ e with localIp := o.localIp }).read rest := by
  cases hd : o.localIp with
  | none =>
    have hsame : ({ e with localIp := none } : UpdateLookupOpts) = e := by rw [← he]
    rw [hsame]
    rfl
  | some v =>
    obtain ⟨hne, hchars⟩ := hv v hd
    have hrest' := hrest (by rw [hd]; rfl)
    have hturn : e.turn 'L' (v ++ rest) = .ok ({ e with localIp := some v }, rest) := by
      unfold turn
      rw [if_neg (by decide), if_pos rfl, extract_append hchars hrest']
      dsimp only
      rw [strip_address fun c hc => .inl (hchars c hc), if_pos hne]
    rw [addressText, Option.elim_some, List.cons_append, read_cons, hturn]
    rfl

theorem codecsText_some {ns : List ℤ} (hne : ns ≠ []) :
    codecsText (some ns) = 'c' :: [','].intercalate (ns.map ofInt) := by
  have hmap : ns.map ofInt ≠ [] := fun h => hne (List.map_eq_nil_iff.mp h)
  have hflat : (ns.flatMap fun n => ofInt n ++ [',']) = Lib.Text.unlines ',' (ns.map ofInt) := by
    rw [Lib.Text.unlines, List.flatMap_map]
  rw [codecsText, Option.elim_some, hflat, Lib.Text.unlines_eq hmap, ← List.cons_append, List.dropLast_concat]

theorem ofInt_digits {n : ℤ} (hn : 0 ≤ n) (hc : c ∈ ofInt n) : c.isDigit = true := by
  cases n with
  | ofNat n => exact Lib.Text.isDigit_of_mem_str hc
  | negSucc n => omega

theorem mem_codecsChars_of_isDigit (h : c.isDigit = true) : c ∈ codecsChars := by
  simp only [Char.isDigit, Bool.and_eq_true, decide_eq_true_eq] at h
  have h₁ : 48 ≤ c.toNat := h.1
  have h₂ : c.toNat ≤ 57 := h.2
  have hall : ∀ n, 48 ≤ n → n ≤ 57 → Char.ofNat n ∈ codecsChars := by decide
  have hmem := hall c.toNat h₁ h₂
  rwa [Char.ofNat_toNat] at hmem

theorem mem_intercalate_digits {ns : List ℤ} (hns : ∀ n ∈ ns, 0 ≤ n) (hc : c ∈ [','].intercalate (ns.map ofInt)) :
    c ∈ codecsChars := by
  by_contra hno
  have hcomma : c ≠ ',' := by
    rintro rfl
    exact hno (by decide)
  have hwords : ∀ l ∈ ns.map ofInt, c ∉ l := by
    intro l hl hcl
    obtain ⟨n, hn, rfl⟩ := List.mem_map.mp hl
    exact hno (mem_codecsChars_of_isDigit (ofInt_digits (hns n hn) hcl))
  exact Lib.Text.not_mem_intercalate hcomma hwords hc

theorem mapM_int (ns : List ℤ) : (ns.map ofInt).mapM Lib.Text.int = some ns := by
  induction ns with
  | nil => rfl
  | cons n ns ih => rw [List.map_cons, List.mapM_cons, Lib.Text.int_ofInt, ih]; rfl

theorem read_codecs (hv : ∀ ns ∈ o.codecs, IsCodecs ns)
    (hrest : o.codecs.isSome → ∀ c ∈ rest.head?, c ∉ codecsChars) (he : e.codecs = none) :
    e.read (codecsText o.codecs ++ rest) = ({ e with codecs := o.codecs }).read rest := by
  cases hd : o.codecs with
  | none =>
    have hsame : ({ e with codecs := none } : UpdateLookupOpts) = e := by rw [← he]
    rw [hsame]
    rfl
  | some ns =>
    obtain ⟨hne, hpos⟩ := hv ns hd
    have hrest' := hrest (by rw [hd]; rfl)
    have hchars : ∀ c ∈ [','].intercalate (ns.map ofInt), c ∈ codecsChars := fun c => mem_intercalate_digits hpos
    have hsplit : splitAll ',' ([','].intercalate (ns.map ofInt)) = ns.map ofInt := by
      apply Lib.Text.splitAll_intercalate
      · intro l hl hcomma
        obtain ⟨n, hn, rfl⟩ := List.mem_map.mp hl
        exact absurd (ofInt_digits (hpos n hn) hcomma) (by decide)
      · exact fun h => hne (List.map_eq_nil_iff.mp h)
    have hnonempty : [','].intercalate (ns.map ofInt) ≠ [] := by
      intro hnil
      rw [hnil] at hsplit
      have hint := mapM_int ns
      rw [← hsplit] at hint
      exact nomatch hint
    have hturn : e.turn 'c' ([','].intercalate (ns.map ofInt) ++ rest) = .ok ({ e with codecs := some ns }, rest) := by
      unfold turn
      rw [if_neg (by decide), if_neg (by decide), if_pos rfl, extract_append hchars hrest']
      dsimp only
      rw [strip_address fun c hc => .inr (hchars c hc), if_pos hnonempty, hsplit, mapM_int]
    rw [codecsText_some hne, List.cons_append, read_cons, hturn]
    rfl

theorem read_other (ht : ∀ c ∈ t, c ≠ 'c' ∧ c ≠ 'R') (hhead : t.head? ≠ some 'L') (he : e.otherparams = some []) :
    e.read t = .ok { e with otherparams := some t } := by
  cases t with
  | nil =>
    rw [← he]
    rfl
  | cons c t =>
    obtain ⟨hcodecs, hR⟩ := ht c List.mem_cons_self
    have hc : ¬ IsOption c := by
      rintro (rfl | rfl | rfl)
      · exact hR rfl
      · exact hhead rfl
      · exact hcodecs rfl
    have hall : ∀ d ∈ c :: t, decide (d ≠ 'c' ∧ d ≠ 'R') = true := fun d hd => decide_eq_true (ht d hd)
    have htake := List.takeWhile_eq_self_iff.mpr hall
    have hdrop := List.dropWhile_eq_nil_iff.mpr fun d hd => hall d (List.mem_cons_of_mem c hd)
    rw [read_cons, turn_other hc, htake, hdrop, he]
    rfl

/-- What the option that is written last may consist of. -/
def lastChars (o : UpdateLookupOpts) : List Char :=
  if o.codecs.isSome then codecsChars
  else if o.localIp.isSome ∨ o.destinationIp.isSome then addressChars
  else []

theorem stops_destinationIp (h : o.localIp.isSome ∨ o.codecs.isSome) (hcodecs : ∀ ns ∈ o.codecs, IsCodecs ns) :
    ∀ c ∈ (addressText 'L' o.localIp ++ (codecsText o.codecs ++ t)).head?, c ∉ addressChars := by
  intro c hc
  cases hl : o.localIp with
  | some v =>
    rw [hl] at hc
    cases hc
    decide
  | none =>
    cases hn : o.codecs with
    | some ns =>
      rw [hl, hn, codecsText_some (hcodecs ns hn).1] at hc
      cases hc
      decide
    | none =>
      rw [hl, hn] at h
      simp at h

theorem stops_localIp (h : o.codecs.isSome) (hcodecs : ∀ ns ∈ o.codecs, IsCodecs ns) :
    ∀ c ∈ (codecsText o.codecs ++ t).head?, c ∉ addressChars := by
  intro c hc
  obtain ⟨ns, hn⟩ := Option.isSome_iff_exists.mp h
  rw [hn, codecsText_some (hcodecs ns hn).1] at hc
  cases hc
  decide

def options (o : UpdateLookupOpts) : UpdateLookupOpts :=
  { empty with destinationIp := o.destinationIp, localIp := o.localIp, codecs := o.codecs,
               otherparams := o.otherparams }

/-- If the other parameters do not go on with the last option, the options are read again. -/
theorem init_optionsText (h : o.Lexed) (hsep : ∀ c ∈ (o.otherparams.getD []).head?, c ∉ o.lastChars) :
    init o.optionsText = .ok o.options := by
  obtain ⟨t, ht, hclean, hhead⟩ := h.other
  have hsep' : ∀ c ∈ t.head?, c ∉ o.lastChars := by simpa only [ht, Option.getD_some] using hsep
  have hcodecs : o.codecs.isSome → ∀ c ∈ t.head?, c ∉ codecsChars := by
    intro hsome c hc
    have hlast := hsep' c hc
    rwa [lastChars, if_pos hsome] at hlast
  have hlocal : o.localIp.isSome → ∀ c ∈ (codecsText o.codecs ++ t).head?, c ∉ addressChars := by
    intro hsome c hc
    by_cases hc' : o.codecs.isSome
    · exact stops_localIp hc' h.codecs c hc
    · have hlast : c ∈ t.head? → c ∉ o.lastChars := hsep' c
      rw [lastChars, if_neg hc', if_pos (.inl hsome)] at hlast
      rw [Bool.not_eq_true, Option.isSome_eq_false_iff, Option.isNone_iff_eq_none] at hc'
      rw [hc'] at hc
      exact hlast hc
  have hdestination : o.destinationIp.isSome →
      ∀ c ∈ (addressText 'L' o.localIp ++ (codecsText o.codecs ++ t)).head?, c ∉ addressChars := by
    intro hsome c hc
    by_cases hc' : o.localIp.isSome ∨ o.codecs.isSome
    · exact stops_destinationIp hc' h.codecs c hc
    · rw [not_or, Bool.not_eq_true, Bool.not_eq_true, Option.isSome_eq_false_iff, Option.isSome_eq_false_iff,
        Option.isNone_iff_eq_none, Option.isNone_iff_eq_none] at hc'
      have hlast : c ∈ t.head? → c ∉ o.lastChars := hsep' c
      rw [lastChars, if_neg (by simp [hc'.2]), if_pos (.inr hsome)] at hlast
      rw [hc'.1, hc'.2] at hc
      exact hlast hc
  rw [init, optionsText, ht, Option.getD_some, read_destinationIp h.destinationIp hdestination rfl,
    read_localIp h.localIp hlocal rfl, read_codecs h.codecs hcodecs rfl,
    read_other (fun c hc => ⟨(hclean c hc).1, (hclean c hc).2.1⟩) hhead rfl, options, ht]

theorem read_merged (hc : IsOption c) (hv : ∀ x ∈ v, x ∈ optionChars c) (hd : d ∈ optionChars c)
    (he : e.otherparams = some []) (h : e.read (c :: (v ++ d :: t)) = .ok o') :
    (o'.otherparams.getD []).length ≤ t.length := by
  rw [read_cons] at h
  cases hturn : e.turn c (v ++ d :: t) with
  | error x =>
    rw [hturn] at h
    exact nomatch h
  | ok p =>
    rw [hturn] at h
    obtain ⟨hrest, hset⟩ := turn_option hc hturn
    have hlen := read_otherparams h
    have hdrop : (v ++ d :: t).dropWhile (fun x => (optionChars c).contains x) =
        t.dropWhile fun x => (optionChars c).contains x := by
      rw [List.dropWhile_append_of_pos fun x hx => by simpa using hv x hx]
      exact List.dropWhile_cons_of_pos (by simpa using hd)
    have hle : (t.dropWhile fun x => (optionChars c).contains x).length ≤ t.length :=
      (List.dropWhile_sublist _).length_le
    rw [hset.otherparams, he, Option.getD_some, List.length_nil, hrest, hdrop] at hlen
    omega

/-- If the other parameters go on with the last option, the last option takes a part of them. -/
theorem init_merged (h : o.Lexed) (ht : o.otherparams = some (d :: t)) (hd : d ∈ o.lastChars)
    (hread : init o.optionsText = .ok o') : (o'.otherparams.getD []).length ≤ t.length := by
  rw [init, optionsText, ht, Option.getD_some] at hread
  unfold lastChars at hd
  by_cases hcodecs : o.codecs.isSome
  · rw [if_pos hcodecs] at hd
    rw [read_destinationIp h.destinationIp (fun _ => stops_destinationIp (.inr hcodecs) h.codecs) rfl,
      read_localIp h.localIp (fun _ => stops_localIp hcodecs h.codecs) rfl] at hread
    obtain ⟨ns, hns⟩ := Option.isSome_iff_exists.mp hcodecs
    obtain ⟨hne, hpos⟩ := h.codecs ns hns
    rw [hns, codecsText_some hne, List.cons_append] at hread
    exact read_merged (.inr (.inr rfl)) (fun x => mem_intercalate_digits hpos) hd rfl hread
  · rw [if_neg hcodecs] at hd
    have hnone : o.codecs = none := by simpa using hcodecs
    rw [hnone] at hread
    split at hd
    · rename_i haddress
      cases hl : o.localIp with
      | some v =>
        rw [read_destinationIp h.destinationIp ?_ rfl, hl] at hread
        · exact read_merged (.inr (.inl rfl)) (h.localIp v hl).2 hd rfl hread
        · rw [← hnone]
          exact fun _ => stops_destinationIp (.inl (by rw [hl]; rfl)) h.codecs
      | none =>
        obtain ⟨v, hv⟩ : ∃ v, o.destinationIp = some v := by
          rw [hl] at haddress
          simpa [Option.isSome_iff_exists] using haddress
        rw [hl, hv] at hread
        exact read_merged (.inl rfl) (h.destinationIp v hv).2 hd rfl hread
    · exact absurd hd List.not_mem_nil

end Written
def IsRest (r : Text) : Prop := lstrip r = r ∧ r ≠ []

/-- The arguments after the tag of the sender. -/
inductive Tail : Option Text → Option Text → Option Text → Prop
  | nothing : Tail none none none
  | toTag {toTag : Text} (h : PlainWord toTag) : Tail (some toTag) none none
  | notify {socket tag : Text} (hs : PlainWord socket) (ht : PlainWord tag) : Tail none (some socket) (some tag)
  | both {toTag socket tag : Text} (h : PlainWord toTag) (hs : PlainWord socket) (ht : IsRest tag) :
      Tail (some toTag) (some socket) (some tag)

/-- The arguments of an object that was read. -/
structure Worded (o : UpdateLookupOpts) : Prop where
  remoteIp : ∃ w, o.remoteIp = some w ∧ PlainWord w
  remotePort : ∃ w, o.remotePort = some w ∧ PlainWord w
  fromTag : ∃ w, o.fromTag = some w ∧ PlainWord w
  tail : Tail o.toTag o.notifySocket o.notifyTag

/-- The arguments before the subarguments, as `getstr` writes them. -/
def argsText (o : UpdateLookupOpts) : Text :=
  o.remoteIp.getD [] ++ (argument o.remotePort ++ (argument o.fromTag ++ (argument o.toTag ++
    (argument o.notifySocket ++ argument o.notifyTag))))

def withWords (e o : UpdateLookupOpts) : UpdateLookupOpts :=
  { e with remoteIp := o.remoteIp, remotePort := o.remotePort, fromTag := o.fromTag, toTag := o.toTag,
           notifySocket := o.notifySocket, notifyTag := o.notifyTag }

def Wordless (e : UpdateLookupOpts) : Prop := e = e.withWords empty

section Words
variable {o o' e : UpdateLookupOpts} {s t args : Text}

theorem isRest_append (h : PlainWord s) (t : Text) : IsRest (s ++ t) :=
  ⟨Lib.Text.lstrip_plain h t, by simp [h.ne_nil]⟩

theorem readTail_worded (h : readTail o s = .ok o') (hto : o.toTag = none) (hs : o.notifySocket = none)
    (ht : o.notifyTag = none) : Tail o'.toTag o'.notifySocket o'.notifyTag ∧
      o' = { o with toTag := o'.toTag, notifySocket := o'.notifySocket, notifyTag := o'.notifyTag } := by
  unfold readTail at h
  split at h
  · rename_i toTag hw
    cases h
    obtain ⟨hplain, -⟩ := Lib.Text.wordsMax_succ hw
    dsimp only
    rw [hs, ht]
    exact ⟨.toTag hplain, rfl⟩
  · rename_i socket tag hw
    cases h
    obtain ⟨hplain, hnil | ⟨r, -, -, hw'⟩⟩ := Lib.Text.wordsMax_succ hw
    · exact nomatch hnil
    obtain ⟨hplain', -⟩ := Lib.Text.wordsMax_succ hw'
    dsimp only
    rw [hto]
    exact ⟨.notify hplain hplain', rfl⟩
  · rename_i toTag socket tag hw
    cases h
    obtain ⟨hplain, hnil | ⟨r, -, -, hw'⟩⟩ := Lib.Text.wordsMax_succ hw
    · exact nomatch hnil
    obtain ⟨hplain', hnil | ⟨r', -, -, hw''⟩⟩ := Lib.Text.wordsMax_succ hw'
    · exact nomatch hnil
    obtain ⟨hrest, hne, -⟩ := Lib.Text.wordsMax_last hw''
    exact ⟨.both hplain hplain' ⟨hrest, hne⟩, rfl⟩
  · exact nomatch h

theorem readWords_worded (ho : o.Wordless) (h : readWords o args = .ok o') : o'.Worded ∧ o' = o.withWords o' := by
  have hto : o.toTag = none := by rw [ho]; rfl
  have hs : o.notifySocket = none := by rw [ho]; rfl
  have ht : o.notifyTag = none := by rw [ho]; rfl
  unfold readWords at h
  split at h
  · rename_i ip port rest hw
    obtain ⟨hip, hnil | ⟨r, -, -, hw'⟩⟩ := Lib.Text.wordsMax_succ hw
    · exact nomatch hnil
    obtain ⟨hport, -⟩ := Lib.Text.wordsMax_succ hw'
    dsimp only at h
    split at h
    · exact nomatch h
    · rename_i fromTag hw''
      cases h
      obtain ⟨hfrom, -⟩ := Lib.Text.wordsMax_succ hw''
      refine ⟨⟨⟨_, rfl, hip⟩, ⟨_, rfl, hport⟩, ⟨_, rfl, hfrom⟩, ?_⟩, rfl⟩
      dsimp only
      rw [hto, hs, ht]
      exact .nothing
    · rename_i fromTag tail _ hw''
      obtain ⟨hfrom, -⟩ := Lib.Text.wordsMax_succ hw''
      obtain ⟨htail, hsame⟩ := readTail_worded h hto hs ht
      rw [hsame]
      exact ⟨⟨⟨_, rfl, hip⟩, ⟨_, rfl, hport⟩, ⟨_, rfl, hfrom⟩, htail⟩, rfl⟩
  · exact nomatch h

theorem readWords_argsText (h : o.Worded) (he : e.Wordless) : readWords e o.argsText = .ok (e.withWords o) := by
  obtain ⟨⟨ip, hip, hip'⟩, ⟨port, hport, hport'⟩, ⟨fromTag, hfrom, hfrom'⟩, htail⟩ := h
  have htext : o.argsText = ip ++ ' ' :: (port ++ ' ' :: (fromTag ++ (argument o.toTag ++
      (argument o.notifySocket ++ argument o.notifyTag)))) := by
    simp only [argsText, hip, hport, hfrom, argument, Option.elim_some, Option.getD_some, List.cons_append]
  have hsame (e' : UpdateLookupOpts) (h' : e' = { e with
      remoteIp := some ip, remotePort := some port, fromTag := some fromTag, toTag := o.toTag,
      notifySocket := o.notifySocket, notifyTag := o.notifyTag }) : (Except.ok e' : Except Exn _) = .ok (e.withWords o) := by
    rw [h', withWords, hip, hport, hfrom]
  obtain ⟨hrest, hne⟩ := isRest_append hfrom' (argument o.toTag ++ (argument o.notifySocket ++ argument o.notifyTag))
  have hto : e.toTag = none := by rw [he]; rfl
  have hs : e.notifySocket = none := by rw [he]; rfl
  have ht : e.notifyTag = none := by rw [he]; rfl
  rw [readWords, htext, Lib.Text.wordsMax_append hip' hport' hrest hne]
  dsimp only
  generalize o.toTag = toTag, o.notifySocket = socket, o.notifyTag = tag at *
  cases htail with
  | nothing =>
    simp only [argument, Option.elim_none, List.append_nil]
    rw [Lib.Text.wordsMax_plain hfrom']
    dsimp only
    apply hsame
    rw [hto, hs, ht]
  | toTag h =>
    have hw := Lib.Text.wordsMax_cons hfrom' (Lib.Text.lstrip_of_plain h) h.ne_nil 0
    simp only [argument, Option.elim_some, Option.elim_none, List.append_nil]
    rw [hw, Lib.Text.wordsMax_plain h]
    dsimp only
    rw [readTail, Lib.Text.wordsMax_plain h]
    apply hsame
    dsimp only
    rw [hs, ht]
  | @notify socket tag h h' =>
    obtain ⟨hrest', hne'⟩ := isRest_append h (' ' :: tag)
    have hw := Lib.Text.wordsMax_cons hfrom' hrest' hne' 0
    have hw' := Lib.Text.wordsMax_cons h (Lib.Text.lstrip_of_plain h') h'.ne_nil 1
    simp only [argument, Option.elim_some, Option.elim_none, List.nil_append, List.cons_append]
    rw [hw, Lib.Text.wordsMax_zero hrest' hne']
    dsimp only
    rw [readTail, hw', Lib.Text.wordsMax_plain h']
    apply hsame
    dsimp only
    rw [hto]
  | @both toTag socket tag h h' h'' =>
    obtain ⟨hrest', hne'⟩ := isRest_append h (' ' :: (socket ++ ' ' :: tag))
    have hw := Lib.Text.wordsMax_cons hfrom' hrest' hne' 0
    simp only [argument, Option.elim_some, List.cons_append]
    rw [hw, Lib.Text.wordsMax_zero hrest' hne']
    dsimp only
    rw [readTail, Lib.Text.wordsMax_append h h' h''.1 h''.2]
    exact hsame _ rfl

theorem optionsText_plain (h : o.Lexed) : ∀ c ∈ o.optionsText, isSpace c = false := by
  have haddress (l : Char) (hl : isSpace l = false) (v : Option Text) (hv : ∀ w ∈ v, IsAddress w) :
      ∀ c ∈ addressText l v, isSpace c = false := by
    intro c hc
    cases v with
    | none => exact nomatch hc
    | some w =>
      rcases List.mem_cons.mp hc with rfl | hc
      · exact hl
      · exact (by decide : ∀ c ∈ addressChars, isSpace c = false) c ((hv w rfl).2 c hc)
  intro c hc
  simp only [optionsText, List.mem_append] at hc
  rcases hc with hc | hc | hc | hc
  · exact haddress 'R' (by decide) _ h.destinationIp c hc
  · exact haddress 'L' (by decide) _ h.localIp c hc
  · cases hn : o.codecs with
    | none =>
      rw [hn] at hc
      exact nomatch hc
    | some ns =>
      obtain ⟨hne, hpos⟩ := h.codecs ns hn
      rw [hn, codecsText_some hne] at hc
      rcases List.mem_cons.mp hc with rfl | hc
      · decide
      · exact (by decide : ∀ c ∈ codecsChars, isSpace c = false) c (mem_intercalate_digits hpos hc)
  · obtain ⟨t, ht, hclean, -⟩ := h.other
    rw [ht] at hc
    exact (hclean c hc).2.2

def Apart (o : UpdateLookupOpts) : Prop :=
  cut separator (o.argsText ++ if o.subargs.isSome then separator else []) = o.subargs.map fun _ => (o.argsText, [])

instance (o : UpdateLookupOpts) : Decidable o.Apart := inferInstanceAs (Decidable (_ = _))

def allArgs (o : UpdateLookupOpts) : Text := o.argsText ++ o.subargs.elim [] (separator ++ ·)

def withArgs (e o : UpdateLookupOpts) : UpdateLookupOpts := { e.withWords o with subargs := o.subargs }

theorem isRest_allArgs (h : o.Worded) : IsRest o.allArgs := by
  obtain ⟨ip, hip, hip'⟩ := h.remoteIp
  rw [allArgs, argsText, hip, Option.getD_some, List.append_assoc]
  exact isRest_append hip' _

theorem cut_separator (a s : Text) : ∃ p, cut separator (a ++ (separator ++ s)) = some p := by
  induction a with
  | nil => exact ⟨_, Lib.Text.cut_self (by decide) s⟩
  | cons c a ih =>
    obtain ⟨p, hp⟩ := ih
    rw [List.cons_append, cut, hp]
    split
    · exact ⟨_, rfl⟩
    · exact ⟨_, rfl⟩

theorem wordless_subargs (he : e.Wordless) (x : Option Text) : ({ e with subargs := x } : UpdateLookupOpts).Wordless := by
  unfold Wordless at he ⊢
  rw [he]
  rfl

theorem readArgs_worded (he : e.Wordless) (hsub : e.subargs = none) (h : readArgs e args = .ok o) :
    o.Worded ∧ o = e.withArgs o := by
  unfold readArgs at h
  split at h
  · obtain ⟨hworded, hsame⟩ := readWords_worded (wordless_subargs he _) h
    refine ⟨hworded, ?_⟩
    rw [hsame]
    rfl
  · obtain ⟨hworded, hsame⟩ := readWords_worded he h
    refine ⟨hworded, ?_⟩
    have hx : o.subargs = (e.withWords o).subargs := congrArg subargs hsame
    have hnone : o.subargs = none := hx.trans hsub
    have hargs : e.withArgs o = e.withWords o := by
      rw [withArgs, hnone, ← hsub]
      rfl
    rw [hargs, ← hsame]

theorem readArgs_allArgs (h : o.Worded) (he : e.Wordless) (hsub : e.subargs = none) :
    readArgs e o.allArgs = .ok (e.withArgs o) ↔ o.Apart := by
  unfold Apart
  cases hs : o.subargs with
  | none =>
    have hall : o.allArgs = o.argsText := by rw [allArgs, hs, Option.elim_none, List.append_nil]
    have hsame : e.withArgs o = e.withWords o := by
      rw [withArgs, hs, ← hsub]
      rfl
    have hempty : (if (none : Option Text).isSome = true then separator else []) = [] := rfl
    rw [hempty, List.append_nil, readArgs, hall, hsame, Option.map_none]
    cases hcut : cut separator o.argsText with
    | none => simp [readWords_argsText h he]
    | some p =>
      dsimp only
      refine iff_of_false (fun hread => ?_) (Option.some_ne_none p)
      have hsame := (readWords_worded (wordless_subargs he _) hread).2
      have hx := congrArg subargs hsame
      change e.subargs = some p.2 at hx
      rw [hsub] at hx
      exact nomatch hx
  | some sub =>
    have hall : o.allArgs = o.argsText ++ separator ++ sub := by
      rw [allArgs, hs, Option.elim_some, List.append_assoc]
    have hsame : e.withArgs o = ({ e with subargs := some sub } : UpdateLookupOpts).withWords o := by
      rw [withArgs, hs]
      rfl
    have hsome : (if (some sub).isSome = true then separator else []) = separator := rfl
    obtain ⟨⟨a, b⟩, hp⟩ := cut_separator o.argsText []
    rw [List.append_nil] at hp
    rw [hsome, readArgs, hall, Lib.Text.cut_concat hp sub, hsame, hp, Option.map_some]
    dsimp only
    constructor
    · intro hread
      have hsame := (readWords_worded (wordless_subargs he _) hread).2
      have hx := congrArg subargs hsame
      change some sub = some (b ++ sub) at hx
      have hb : b = [] := by
        have hlen := congrArg List.length (Option.some.inj hx)
        rw [List.length_append] at hlen
        exact List.length_eq_zero_iff.mp (by omega)
      have heq := Lib.Text.cut_eq hp
      rw [hb, List.append_nil] at heq
      rw [hb, List.append_cancel_right heq]
    · intro hp'
      cases hp'
      exact readWords_argsText h (wordless_subargs he _)

/-- The parts of an update can be told apart: the other parameters do not begin with what the option
before them may consist of, and no argument is taken for the beginning of the subarguments. -/
structure Separable (o : UpdateLookupOpts) : Prop where
  options : ∀ c ∈ (o.otherparams.getD []).head?, c ∉ o.lastChars
  args : o.Apart

instance (o : UpdateLookupOpts) : Decidable o.Separable :=
  decidable_of_iff ((∀ c ∈ (o.otherparams.getD []).head?, c ∉ o.lastChars) ∧ o.Apart)
    ⟨fun h => ⟨h.1, h.2⟩, fun h => ⟨h.options, h.args⟩⟩

theorem restored_iff (h : o.Lexed) (h' : o.Worded) :
    (init o.optionsText >>= fun e => e.readArgs o.allArgs) = .ok o ↔ o.Separable := by
  have hwordless : o.options.Wordless := rfl
  have hargs : o.options.readArgs o.allArgs = .ok o ↔ o.Apart := readArgs_allArgs h' hwordless rfl
  constructor
  · intro hread
    obtain ⟨e, he, hread⟩ := Lib.bind_ok.mp hread
    by_cases hsep : ∀ c ∈ (o.otherparams.getD []).head?, c ∉ o.lastChars
    · rw [init_optionsText h hsep] at he
      cases he
      exact ⟨hsep, hargs.mp hread⟩
    · exfalso
      obtain ⟨t, ht, -, -⟩ := h.other
      cases t with
      | nil =>
        apply hsep
        rw [ht]
        exact fun c hc => nomatch hc
      | cons d t =>
        have hd : d ∈ o.lastChars := by
          rw [ht] at hsep
          simpa using hsep
        have hlen := init_merged h ht hd he
        have hsame := init_sameWords he
        have hwordless : e.Wordless := by
          rw [hsame]
          rfl
        have hsub : e.subargs = none := by
          rw [hsame]
          rfl
        have hother : e.otherparams = o.otherparams :=
          (congrArg otherparams (readArgs_worded hwordless hsub hread).2).symm
        rw [hother, ht, Option.getD_some, List.length_cons] at hlen
        omega
  · intro hsep
    rw [init_optionsText h hsep.options]
    exact hargs.mpr hsep.args

end Words
end UpdateLookupOpts

namespace RtpProxyCmd
open UpdateLookupOpts (argument argsText allArgs Worded IsRest)

/-- `str` of an update or a lookup. -/
theorem str_update {type callId : Text} {o : UpdateLookupOpts} (h : o.Worded) :
    str ⟨type, some o, none, some callId, none⟩ = .ok (type ++ (o.optionsText ++ ' ' :: (callId ++ ' ' :: o.allArgs))) := by
  obtain ⟨ip, hip, -⟩ := h.remoteIp
  simp only [str, UpdateLookupOpts.getstr, argument, allArgs, argsText, hip, Option.elim_some, Option.elim_none, Option.getD_some,
    List.append_nil, List.append_assoc, List.cons_append, if_neg Bool.false_ne_true]
  rfl

theorem str_args {type opts callId args : Text} :
    str ⟨type, none, some opts, some callId, some args⟩ = .ok (type ++ (opts ++ ' ' :: (callId ++ ' ' :: args))) := by
  simp only [str, argument, Option.elim_some, Option.getD_some, pure_bind, List.append_assoc, List.cons_append]
  rfl

theorem types_letters : ∀ t ∈ types, t = [t.headD ' '] ∧ typeOf (t.headD ' ') = t ∧ isSpace (t.headD ' ') = false := by
  decide

theorem init_update {t : Char} (ht : typeOf t = [t]) (htype : [t] ∈ updateTypes) (hspace : isSpace t = false)
    {opts callId args : Text} (hopts : ∀ c ∈ opts, isSpace c = false) (hid : PlainWord callId) (hargs : IsRest args) :
    init (t :: (opts ++ ' ' :: (callId ++ ' ' :: args))) = (do
      let o ← UpdateLookupOpts.init opts
      let o ← o.readArgs args
      return ⟨[t], some o, none, some callId, none⟩) := by
  have hplain : PlainWord (t :: opts) := ⟨List.cons_ne_nil _ _, by simpa [hspace] using hopts⟩
  have hwords := Lib.Text.wordsMax_append hplain hid hargs.1 hargs.2
  rw [List.cons_append] at hwords
  unfold RtpProxyCmd.init
  dsimp only
  rw [ht, if_pos (List.mem_append_left _ htype), hwords]
  dsimp only
  rw [if_pos htype]
  rfl

theorem init_args {t : Char} (ht : typeOf t = [t]) (htype : [t] ∈ argsTypes) (hspace : isSpace t = false)
    {opts callId args : Text} (hopts : ∀ c ∈ opts, isSpace c = false) (hid : PlainWord callId) (hargs : IsRest args) :
    init (t :: (opts ++ ' ' :: (callId ++ ' ' :: args))) = .ok ⟨[t], none, some opts, some callId, some args⟩ := by
  have hplain : PlainWord (t :: opts) := ⟨List.cons_ne_nil _ _, by simpa [hspace] using hopts⟩
  have hwords := Lib.Text.wordsMax_append hplain hid hargs.1 hargs.2
  have hdisjoint : ∀ t ∈ argsTypes, t ∉ updateTypes := by decide
  rw [List.cons_append] at hwords
  unfold RtpProxyCmd.init
  dsimp only
  rw [ht, if_pos (List.mem_append_right _ htype), hwords]
  dsimp only
  rw [if_neg (hdisjoint _ htype)]
  rfl

theorem get_restored {d : Char} {cs : Text} {cmd : RtpProxyCmd} (h : init (d :: cs) = .ok cmd)
    (htype : typeOf d = getType) : (cmd.str >>= init) = .ok cmd := by
  have hG : typeOf 'G' = getType := by decide
  have hno : getType ∉ updateTypes ++ argsTypes := by decide
  have hspace : isSpace ' ' = true := by decide
  have hread (x : Char) (xs : Text) : init ('G' :: x :: xs) =
      if isSpace x then .ok ⟨getType, none, none, none, some (strip (x :: xs))⟩
      else match wordsMax 1 (x :: xs) with
        | [] => .error .indexError
        | [commandOpts] => .ok ⟨getType, none, some commandOpts, none, none⟩
        | commandOpts :: args :: _ => .ok ⟨getType, none, some commandOpts, none, some args⟩ := by
    unfold RtpProxyCmd.init
    dsimp only
    rw [hG, if_neg hno, if_pos rfl]
  unfold RtpProxyCmd.init at h
  dsimp only at h
  rw [htype, if_neg hno, if_pos rfl] at h
  cases cs with
  | nil => exact nomatch h
  | cons x xs =>
    dsimp only at h
    by_cases hx : isSpace x = true
    · rw [if_pos hx] at h
      cases h
      have hstr : str ⟨getType, none, none, none, some (strip (x :: xs))⟩ = .ok ('G' :: ' ' :: strip (x :: xs)) := rfl
      rw [hstr, Lib.ok_bind, hread, if_pos hspace, Lib.Text.strip_cons_space hspace, Lib.Text.strip_strip]
    · rw [if_neg hx] at h
      have hkept (opts : Text) (hopts : PlainWord opts) (rest : Text) : ∃ y ys, opts ++ rest = y :: ys ∧ isSpace y = false := by
        cases opts with
        | nil => exact absurd rfl hopts.ne_nil
        | cons y ys => exact ⟨y, ys ++ rest, rfl, hopts.space y List.mem_cons_self⟩
      split at h
      · exact nomatch h
      · rename_i opts hw
        cases h
        obtain ⟨hopts, -⟩ := Lib.Text.wordsMax_succ hw
        obtain ⟨y, ys, hy, hsp⟩ := hkept opts hopts []
        rw [List.append_nil] at hy
        have hstr : str ⟨getType, none, some opts, none, none⟩ = .ok ('G' :: opts) := by
          simp [str, argument, getType, pure, Except.pure, bind, Except.bind]
        rw [hstr, Lib.ok_bind, hy, hread, if_neg (by simp [hsp]), ← hy, Lib.Text.wordsMax_plain hopts]
      · rename_i opts args _ hw
        cases h
        obtain ⟨hopts, hnil | ⟨r, -, -, hw'⟩⟩ := Lib.Text.wordsMax_succ hw
        · exact nomatch hnil
        obtain ⟨hrest, hne, -⟩ := Lib.Text.wordsMax_last hw'
        obtain ⟨y, ys, hy, hsp⟩ := hkept opts hopts (' ' :: args)
        have hstr : str ⟨getType, none, some opts, none, some args⟩ = .ok ('G' :: (opts ++ ' ' :: args)) := by
          simp [str, argument, getType, pure, Except.pure, bind, Except.bind]
        rw [hstr, Lib.ok_bind, hy, hread, if_neg (by simp [hsp]), ← hy, Lib.Text.wordsMax_cons hopts hrest hne,
          Lib.Text.wordsMax_zero hrest hne]

theorem ulOpts_get {d : Char} {cs : Text} {cmd : RtpProxyCmd} (h : init (d :: cs) = .ok cmd)
    (htype : typeOf d = getType) : cmd.ulOpts = none := by
  have hno : getType ∉ updateTypes ++ argsTypes := by decide
  unfold RtpProxyCmd.init at h
  dsimp only at h
  rw [htype, if_neg hno, if_pos rfl] at h
  repeat' split at h
  all_goals cases h
  all_goals rfl

/-- The loop over the options ends, after as many turns as there are characters at most; and a command
of a known type is written as it is read, an update or a lookup exactly if its parts can be told apart. -/
theorem cmd_restored_iff (s : Text) :
    (∀ o n, s.length ≤ n → UpdateLookupOpts.loop n o s = some (o.read s)) ∧
      ∀ cmd, init s = .ok cmd → cmd.type ∈ types →
        ((cmd.str >>= init) = .ok cmd ↔ ∀ o ∈ cmd.ulOpts, o.Separable) := by
  refine ⟨fun o n => UpdateLookupOpts.loop_terminates o, fun cmd h htypes => ?_⟩
  cases s with
  | nil => exact nomatch h
  | cons c cs =>
    have hinit := h
    unfold RtpProxyCmd.init at h
    dsimp only at h
    split at h
    · rename_i htype
      split at h
      · rename_i word callId args hw
        obtain ⟨hword, hnil | ⟨r, -, -, hw'⟩⟩ := Lib.Text.wordsMax_succ hw
        · exact nomatch hnil
        obtain ⟨hid, hnil | ⟨r', -, -, hw''⟩⟩ := Lib.Text.wordsMax_succ hw'
        · exact nomatch hnil
        obtain ⟨hrest, hne, -⟩ := Lib.Text.wordsMax_last hw''
        have hopts : ∀ c ∈ word.drop 1, isSpace c = false := fun c hc => hword.space c (List.mem_of_mem_drop hc)
        have hletter : typeOf c ∈ types := List.mem_append_left _ htype
        obtain ⟨heq, hof, hspace⟩ := types_letters _ hletter
        generalize (typeOf c).headD ' ' = t at heq hof hspace
        rw [heq] at h hof htype
        split at h
        · rename_i hupdate
          obtain ⟨e, he, h⟩ := Lib.bind_ok.mp h
          obtain ⟨o, ho, h⟩ := Lib.bind_ok.mp h
          cases h
          have hlexed := UpdateLookupOpts.init_lexed hopts he
          have hsame := UpdateLookupOpts.init_sameWords he
          have hwordless : e.Wordless := by
            rw [hsame]
            rfl
          have hsub : e.subargs = none := by
            rw [hsame]
            rfl
          obtain ⟨hworded, ho'⟩ := UpdateLookupOpts.readArgs_worded hwordless hsub ho
          have hlexed' : o.Lexed := by
            rw [ho']
            exact ⟨hlexed.destinationIp, hlexed.localIp, hlexed.codecs, hlexed.other⟩
          rw [str_update hworded, Lib.ok_bind, List.singleton_append,
            init_update hof hupdate hspace (UpdateLookupOpts.optionsText_plain hlexed') hid
              (UpdateLookupOpts.isRest_allArgs hworded)]
          have hrestored := UpdateLookupOpts.restored_iff hlexed' hworded
          constructor
          · intro hread o' ho'
            cases ho'
            obtain ⟨e', he', hread⟩ := Lib.bind_ok.mp hread
            obtain ⟨o', ho', hread⟩ := Lib.bind_ok.mp hread
            cases hread
            exact hrestored.mp (Lib.bind_ok.mpr ⟨e', he', ho'⟩)
          · intro hsep
            obtain ⟨e', he', ho'⟩ := Lib.bind_ok.mp (hrestored.mpr (hsep o rfl))
            exact Lib.bind_ok.mpr ⟨e', he', Lib.bind_ok.mpr ⟨o, ho', rfl⟩⟩
        · cases h
          refine iff_of_true ?_ fun o ho => nomatch ho
          rw [str_args, Lib.ok_bind]
          refine init_args hof ?_ hspace hopts hid ⟨hrest, hne⟩
          exact (List.mem_append.mp htype).resolve_left ‹_›
      · exact nomatch h
    · split at h
      · rename_i hget
        refine iff_of_true (get_restored hinit hget) fun o ho => ?_
        rw [ulOpts_get hinit hget] at ho
        exact nomatch ho
      · cases h
        rename_i hno hget
        rcases List.mem_append.mp htypes with h | h
        · exact absurd h hno
        · exact absurd (List.mem_singleton.mp h) hget

def familyUpdate : RtpProxyCmd :=
  ⟨"U".toList, some ⟨some "10.0.0.1".toList, none, none, some "6".toList, some "0.0.0.0".toList, some "0".toList,
    some "tag".toList, none, none, none, none⟩, none, some "call-id".toList, none⟩

/-- The digit that is an option of its own becomes a part of the address. -/
theorem familyUpdate_altered :
    init "U6R10.0.0.1 call-id 0.0.0.0 0 tag".toList = .ok familyUpdate ∧ familyUpdate.type ∈ types ∧
      familyUpdate.str = .ok "UR10.0.0.16 call-id 0.0.0.0 0 tag".toList ∧
        (familyUpdate.str >>= init) ≠ .ok familyUpdate := by
  have hinit : init "U6R10.0.0.1 call-id 0.0.0.0 0 tag".toList = .ok familyUpdate := by decide +kernel
  have hstr : familyUpdate.str = .ok "UR10.0.0.16 call-id 0.0.0.0 0 tag".toList := by decide +kernel
  refine ⟨hinit, by decide, hstr, ?_⟩
  rw [hstr, Lib.ok_bind]
  decide +kernel

end RtpProxyCmd

end SippyB2bua.Rtpp
