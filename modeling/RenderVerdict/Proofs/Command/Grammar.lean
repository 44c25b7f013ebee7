import RenderVerdict.Command.Options
import RenderVerdict.Proofs.Outcome

/-! The grammar of options: which tokens arguments are read as, which tokens are accepted, and what
options they leave. -/
namespace RenderVerdict

/-- A text stands for a number: decimal digits, which a plus sign may precede, of a number of 64
bits. -/
def CountText (text : String) (n : Nat) : Prop :=
  ∃ digits, (text.toList = digits ∨ text.toList = '+' :: digits) ∧ digits ≠ [] ∧
    (∀ c ∈ digits, c.isDigit) ∧ Nat.ofDigitChars 10 digits 0 = n ∧ n < Nat.pow 2 64

theorem le_ofDigitChars (digits : List Char) (value : Nat) :
    value ≤ Nat.ofDigitChars 10 digits value := by
  induction digits generalizing value with
  | nil => simp
  | cons c digits ih =>
    rw [Nat.ofDigitChars_cons]
    exact le_trans (by omega) (ih _)

/-- Digits are read to the end unless the value, which only grows, becomes too large. -/
theorem countFrom_eq_ok_iff {digits : List Char} {value n : Nat} (h : value < Nat.pow 2 64) :
    countFrom value digits = .ok n ↔
      (∀ c ∈ digits, c.isDigit) ∧ Nat.ofDigitChars 10 digits value = n ∧ n < Nat.pow 2 64 := by
  induction digits generalizing value with
  | nil =>
    simp only [countFrom, Except.ok.injEq, Nat.ofDigitChars_nil]
    constructor
    · rintro rfl
      exact ⟨by simp, rfl, h⟩
    · rintro ⟨-, hvalue, -⟩
      exact hvalue
  | cons c digits ih =>
    rw [countFrom, Nat.ofDigitChars_cons, List.forall_mem_cons, Nat.mul_comm 10 value]
    by_cases hdigit : c.isDigit
    · rw [if_neg (by simpa using hdigit)]
      dsimp only
      by_cases hfits : value * 10 + (c.toNat - '0'.toNat) < Nat.pow 2 64
      · rw [if_pos hfits, ih hfits]
        simp [hdigit]
      · rw [if_neg hfits]
        have hgrown := le_ofDigitChars digits (value * 10 + (c.toNat - '0'.toNat))
        constructor
        · nofun
        · rintro ⟨-, hvalue, hn⟩
          omega
    · rw [if_pos (by simpa using hdigit)]
      simp [hdigit]

theorem readCount_eq_ok_iff {text : String} {n : Nat} :
    readCount text = .ok n ↔ CountText text n := by
  have hstart : (0 : Nat) < Nat.pow 2 64 := by decide
  have hplus : ¬ '+'.isDigit := by decide
  unfold readCount CountText
  generalize text.toList = characters
  split
  · simp
  · simp
  · rename_i digits hdigits
    rw [countFrom_eq_ok_iff hstart]
    constructor
    · intro h
      exact ⟨digits, .inr rfl, hdigits, h⟩
    · rintro ⟨_, rfl | heq, -, hall, h⟩
      · exact absurd (hall '+' List.mem_cons_self) hplus
      · obtain ⟨-, rfl⟩ := List.cons.inj heq
        exact ⟨hall, h⟩
  · rename_i hnonempty _ hunsigned
    rw [countFrom_eq_ok_iff hstart]
    constructor
    · intro h
      exact ⟨characters, .inl rfl, hnonempty, h⟩
    · rintro ⟨digits, rfl | heq, -, h⟩
      · exact h
      · exact (hunsigned digits heq).elim

theorem Channel.ofName?_eq_some_iff {name : String} {channel : Channel} :
    ofName? name = some channel ↔ channel.name = name := by
  constructor
  · intro h
    exact of_decide_eq_true (List.find?_some h :)
  · rintro rfl
    cases channel <;> rfl

namespace Flag

theorem ofArgument?_eq_some_iff {argument : String} {flag : Flag} :
    ofArgument? argument = some flag ↔ flag.name = argument := by
  constructor
  · intro h
    exact of_decide_eq_true (List.find?_some h :)
  · rintro rfl
    cases flag <;> rfl

theorem ofArgument?_eq_none_iff {argument : String} :
    ofArgument? argument = none ↔ ∀ flag : Flag, flag.name ≠ argument := by
  rw [Option.eq_none_iff_forall_ne_some]
  exact forall_congr' fun flag => not_congr ofArgument?_eq_some_iff

theorem name_inj {flag other : Flag} : flag.name = other.name ↔ flag = other := by
  cases flag <;> cases other <;> decide

theorem startsWith_name (flag : Flag) : flag.name.startsWith "--" := by
  rw [String.startsWith_string_iff]
  cases flag <;> decide

def Takes (flag : Flag) (value : String) : Prop :=
  match flag with
  | .frames => ∃ n, CountText value n
  | .channel => ∃ channel : Channel, channel.name = value
  | .config | .report => True

end Flag

/-- What an argument is, or a flag together with its value. -/
inductive Token where
  | operand (text : String)
  | option (flag : Flag) (value : String)
  /-- A text that looks like a flag and is none. -/
  | unknown (text : String)
  /-- A flag that no value follows. -/
  | bare (flag : Flag)

namespace Token

def Accepted : Token → Prop
  | operand _ => True
  | option flag value => flag.Takes value
  | unknown _ | bare _ => False

def operand? : Token → Option String
  | operand text => some text
  | _ => none

def value? (flag : Flag) : Token → Option String
  | option other value => if other = flag then some value else none
  | _ => none

def operands (tokens : List Token) : List String := tokens.filterMap operand?

def values (flag : Flag) (tokens : List Token) : List String := tokens.filterMap (value? flag)

section Summary

variable {read tokens : List Token} {flag other : Flag} {text value : String}

@[simp] theorem operands_nil : operands [] = [] := rfl

@[simp] theorem operands_append : operands (read ++ tokens) = operands read ++ operands tokens :=
  List.filterMap_append

@[simp] theorem operands_cons_operand :
    operands (operand text :: tokens) = text :: operands tokens := rfl

@[simp] theorem operands_cons_option :
    operands (option flag value :: tokens) = operands tokens := rfl

@[simp] theorem values_nil : values flag [] = [] := rfl

@[simp] theorem values_append :
    values flag (read ++ tokens) = values flag read ++ values flag tokens := List.filterMap_append

@[simp] theorem values_cons_operand :
    values flag (operand text :: tokens) = values flag tokens := rfl

@[simp] theorem values_cons_self :
    values flag (option flag value :: tokens) = value :: values flag tokens :=
  List.filterMap_cons_some (if_pos rfl)

theorem values_cons_of_ne (h : other ≠ flag) :
    values other (option flag value :: tokens) = values other tokens :=
  List.filterMap_cons_none (if_neg h.symm)

theorem values_eq_nil (h : ∀ value, option flag value ∉ tokens) : values flag tokens = [] := by
  refine List.filterMap_eq_nil_iff.mpr fun token htoken => ?_
  cases token with
  | option other value =>
    refine if_neg ?_
    rintro rfl
    exact h value htoken
  | _ => rfl

end Summary

end Token

/-- Arguments are read from left to right. The argument after a flag is its value, whatever it looks
like. -/
inductive Reads : List String → List Token → Prop
  | nil : Reads [] []
  | operand {text : String} {rest : List String} {tokens : List Token}
    (plain : ¬ text.startsWith "--") (more : Reads rest tokens) :
    Reads (text :: rest) (.operand text :: tokens)
  | option (flag : Flag) (value : String) {rest : List String} {tokens : List Token}
    (more : Reads rest tokens) : Reads (flag.name :: value :: rest) (.option flag value :: tokens)
  | unknown {text : String} {rest : List String} {tokens : List Token}
    (dashed : text.startsWith "--") (other : ∀ flag : Flag, flag.name ≠ text)
    (more : Reads rest tokens) : Reads (text :: rest) (.unknown text :: tokens)
  | bare (flag : Flag) : Reads [flag.name] [.bare flag]

namespace Reads

variable {arguments rest : List String} {tokens tokens' : List Token}

theorem exists_tokens : ∀ arguments, ∃ tokens, Reads arguments tokens
  | [] => ⟨[], .nil⟩
  | argument :: rest => by
    by_cases hflag : ∃ flag : Flag, flag.name = argument
    · obtain ⟨flag, rfl⟩ := hflag
      cases rest with
      | nil => exact ⟨_, .bare flag⟩
      | cons value rest =>
        obtain ⟨tokens, more⟩ := exists_tokens rest
        exact ⟨_, .option flag value more⟩
    · obtain ⟨tokens, more⟩ := exists_tokens rest
      by_cases dashed : argument.startsWith "--"
      · exact ⟨_, .unknown dashed (not_exists.mp hflag) more⟩
      · exact ⟨_, .operand dashed more⟩

/-- A flag is read together with the argument after it, or it is bare. -/
theorem of_flag {flag : Flag} (h : Reads (flag.name :: rest) tokens) :
    rest = [] ∧ tokens = [.bare flag] ∨ ∃ value rest' more, rest = value :: rest' ∧
      tokens = .option flag value :: more ∧ Reads rest' more := by
  generalize hargs : flag.name :: rest = arguments at h
  cases h with
  | nil => cases hargs
  | operand plain =>
    obtain ⟨rfl, -⟩ := List.cons.inj hargs
    exact absurd flag.startsWith_name plain
  | option other value more =>
    obtain ⟨hname, rfl⟩ := List.cons.inj hargs
    rw [Flag.name_inj.mp hname]
    exact .inr ⟨value, _, _, rfl, rfl, more⟩
  | unknown _ other =>
    obtain ⟨rfl, -⟩ := List.cons.inj hargs
    exact absurd rfl (other flag)
  | bare other =>
    obtain ⟨hname, rfl⟩ := List.cons.inj hargs
    rw [Flag.name_inj.mp hname]
    exact .inl ⟨rfl, rfl⟩

theorem unique (h : Reads arguments tokens) (h' : Reads arguments tokens') : tokens' = tokens := by
  induction h generalizing tokens' with
  | nil =>
    cases h'
    rfl
  | operand plain more ih =>
    cases h' with
    | operand _ more' => rw [ih more']
    | option flag => exact absurd flag.startsWith_name plain
    | unknown dashed => exact absurd dashed plain
    | bare flag => exact absurd flag.startsWith_name plain
  | option flag value more ih =>
    rcases of_flag h' with ⟨hrest, -⟩ | ⟨_, _, _, hrest, rfl, more'⟩
    · cases hrest
    · obtain ⟨rfl, rfl⟩ := List.cons.inj hrest
      rw [ih more']
  | unknown dashed other more ih =>
    cases h' with
    | operand plain => exact absurd dashed plain
    | option flag => exact absurd rfl (other flag)
    | unknown _ _ more' => rw [ih more']
    | bare flag => exact absurd rfl (other flag)
  | bare flag =>
    rcases of_flag h' with ⟨-, rfl⟩ | ⟨_, _, _, hrest, -⟩
    · rfl
    · cases hrest

/-- Arguments that end with a token's end can be followed by any others. -/
theorem append {more : List Token} (h : Reads arguments tokens)
    (whole : ∀ flag, Token.bare flag ∉ tokens) (hrest : Reads rest more) :
    Reads (arguments ++ rest) (tokens ++ more) := by
  induction h with
  | nil => exact hrest
  | operand plain _ ih =>
    exact .operand plain (ih fun flag h => whole flag (List.mem_cons_of_mem _ h))
  | option flag value _ ih =>
    exact .option flag value (ih fun flag h => whole flag (List.mem_cons_of_mem _ h))
  | unknown dashed other _ ih =>
    exact .unknown dashed other (ih fun flag h => whole flag (List.mem_cons_of_mem _ h))
  | bare flag => exact absurd List.mem_cons_self (whole flag)

end Reads

namespace Options

variable {options result : Options} {read tokens : List Token} {flag : Flag} {value : String}

/-- Options have the last value of a flag as what it stands for, and nothing if there is none. -/
def Shows (options : Options) (flag : Flag) (last? : Option String) : Prop :=
  match flag with
  | .frames => ∀ n, options.frames = some n ↔ ∃ value, last? = some value ∧ CountText value n
  | .channel => ∀ channel : Channel, options.channel = some channel ↔ last? = some channel.name
  | .config => options.config = last?
  | .report => options.report = last?

/-- Options are what accepted tokens say: the operands in order, and of each flag its last value. -/
structure Holds (options : Options) (tokens : List Token) : Prop where
  positional : options.positional = Token.operands tokens
  shows : ∀ flag, options.Shows flag (Token.values flag tokens).getLast?

theorem holds_nil : Holds {} [] where
  positional := rfl
  shows flag := by cases flag <;> simp [Shows]

theorem Holds.unique (h : options.Holds tokens) (h' : result.Holds tokens) : result = options := by
  have hframes : result.frames = options.frames :=
    Option.ext fun n => (h'.shows .frames n).trans (h.shows .frames n).symm
  have hchannel : result.channel = options.channel :=
    Option.ext fun channel => (h'.shows .channel channel).trans (h.shows .channel channel).symm
  have hconfig : result.config = options.config := (h'.shows .config).trans (h.shows .config).symm
  have hreport : result.report = options.report := (h'.shows .report).trans (h.shows .report).symm
  cases options
  cases result
  rw [mk.injEq]
  exact ⟨h'.positional.trans h.positional.symm, hframes, hchannel, hconfig, hreport⟩

/-- The order of tokens does not matter, but for that of operands and of the values of a flag. -/
theorem Holds.reorder (h : options.Holds tokens)
    (hoperands : Token.operands read = Token.operands tokens)
    (hvalues : ∀ flag, Token.values flag read = Token.values flag tokens) :
    options.Holds read where
  positional := h.positional.trans hoperands.symm
  shows flag := by
    rw [hvalues flag]
    exact h.shows flag

theorem Holds.operand (h : options.Holds read) (text : String) :
    Holds { options with positional := options.positional ++ [text] }
      (read ++ [.operand text]) where
  positional := by simp [h.positional]
  shows flag := by
    have hvalues : Token.values flag (read ++ [.operand text]) = Token.values flag read := by simp
    have hshows := h.shows flag
    rw [hvalues]
    cases flag <;> exact hshows

theorem exists_set_iff : (∃ result, options.set flag value = .ok result) ↔ flag.Takes value := by
  cases flag with
  | frames =>
    simp only [Options.set, Flag.Takes, ← readCount_eq_ok_iff]
    cases readCount value <;> simp
  | channel =>
    simp only [Options.set, Flag.Takes, ← Channel.ofName?_eq_some_iff]
    cases Channel.ofName? value <;> simp
  | config => simp [Options.set, Flag.Takes]
  | report => simp [Options.set, Flag.Takes]

/-- Setting a flag changes what it shows, and nothing else. -/
theorem shows_of_set (h : options.set flag value = .ok result) :
    result.positional = options.positional ∧ result.Shows flag (some value) ∧
      ∀ other ≠ flag, ∀ last?, options.Shows other last? → result.Shows other last? := by
  unfold Options.set at h
  cases flag with
  | frames =>
    dsimp only at h
    split at h
    · rename_i count hcount
      cases h
      refine ⟨rfl, ?_, fun other hother => by cases other <;> simp [Shows] at hother ⊢⟩
      simp [Shows, ← readCount_eq_ok_iff, hcount]
    · cases h
  | channel =>
    dsimp only at h
    split at h
    · rename_i channel hchannel
      cases h
      refine ⟨rfl, ?_, fun other hother => by cases other <;> simp [Shows] at hother ⊢⟩
      intro other
      rw [← hchannel, Channel.ofName?_eq_some_iff, Option.some.injEq, eq_comm]
    · cases h
  | config =>
    cases h
    exact ⟨rfl, rfl, fun other hother => by cases other <;> simp [Shows] at hother ⊢⟩
  | report =>
    cases h
    exact ⟨rfl, rfl, fun other hother => by cases other <;> simp [Shows] at hother ⊢⟩

/-- A value takes the place of any earlier one of its flag. -/
theorem Holds.set (h : options.Holds read) (hset : options.set flag value = .ok result) :
    result.Holds (read ++ [.option flag value]) := by
  obtain ⟨hpositional, hself, hothers⟩ := shows_of_set hset
  constructor
  · simp [hpositional, h.positional]
  · intro other
    by_cases hother : other = flag
    · subst hother
      simpa using hself
    · have hkept := hothers other hother _ (h.shows other)
      simpa [Token.values_cons_of_ne hother] using hkept

/-- What is read extends what was read before: it succeeds on accepted tokens, and the options then
hold all tokens. -/
theorem extend_eq_ok_iff {arguments : List String} (hreads : Reads arguments tokens)
    (h : options.Holds read) : options.extend arguments = .ok result ↔
      (∀ token ∈ tokens, token.Accepted) ∧ result.Holds (read ++ tokens) := by
  -- Along the way the options hold what has been read.
  induction hreads generalizing options read with
  | nil =>
    rw [extend, List.append_nil]
    constructor
    · rintro heq
      cases heq
      exact ⟨by simp, h⟩
    · rintro ⟨-, hresult⟩
      rw [h.unique hresult]
  | @operand text _ tokens plain more ih =>
    have hflag : Flag.ofArgument? text = none := by
      rw [Flag.ofArgument?_eq_none_iff]
      rintro flag rfl
      exact plain flag.startsWith_name
    rw [extend, hflag]
    dsimp only
    rw [if_neg plain, ih (h.operand text), List.append_assoc, List.forall_mem_cons]
    simp [Token.Accepted]
  | @option flag value _ tokens more ih =>
    rw [extend, Flag.ofArgument?_eq_some_iff.mpr rfl]
    dsimp only
    rw [bind_eq_ok_iff, List.forall_mem_cons]
    constructor
    · rintro ⟨set, hset, hextend⟩
      obtain ⟨haccepted, hresult⟩ := (ih (h.set hset)).mp hextend
      exact ⟨⟨exists_set_iff.mp ⟨set, hset⟩, haccepted⟩, by simpa using hresult⟩
    · rintro ⟨⟨htakes, haccepted⟩, hresult⟩
      obtain ⟨set, hset⟩ := exists_set_iff.mpr htakes
      exact ⟨set, hset, (ih (h.set hset)).mpr ⟨haccepted, by simpa using hresult⟩⟩
  | @unknown text _ tokens dashed other more ih =>
    rw [extend, Flag.ofArgument?_eq_none_iff.mpr other]
    dsimp only
    rw [if_pos dashed]
    simp [Token.Accepted]
  | bare flag =>
    rw [extend, Flag.ofArgument?_eq_some_iff.mpr rfl]
    simp [Token.Accepted]

/-- Accepted tokens can be held. -/
theorem exists_holds (h : options.Holds read) (haccepted : ∀ token ∈ tokens, token.Accepted) :
    ∃ result : Options, result.Holds (read ++ tokens) := by
  induction tokens generalizing options read with
  | nil => exact ⟨options, by rwa [List.append_nil]⟩
  | cons token tokens ih =>
    obtain ⟨htoken, htokens⟩ := List.forall_mem_cons.mp haccepted
    rw [List.append_cons]
    cases token with
    | operand text => exact ih (h.operand text) htokens
    | option flag value =>
      obtain ⟨set, hset⟩ := exists_set_iff.mpr htoken
      exact ih (h.set hset) htokens
    | unknown text => exact htoken.elim
    | bare flag => exact htoken.elim

section Parsing

variable {arguments arguments' : List String} {tokens' : List Token}

theorem parse_eq_ok_iff (h : Reads arguments tokens) : parse arguments = .ok options ↔
    (∀ token ∈ tokens, token.Accepted) ∧ options.Holds tokens :=
  extend_eq_ok_iff h holds_nil

theorem exists_parse_iff (h : Reads arguments tokens) :
    (∃ options, parse arguments = .ok options) ↔ ∀ token ∈ tokens, token.Accepted := by
  constructor
  · rintro ⟨options, hparse⟩
    exact ((parse_eq_ok_iff h).mp hparse).1
  · intro haccepted
    obtain ⟨options, hholds⟩ := exists_holds holds_nil haccepted
    exact ⟨options, (parse_eq_ok_iff h).mpr ⟨haccepted, hholds⟩⟩

/-- Arguments with the same tokens, in an order that keeps the operands and the values of each flag
in order, are the same options. -/
theorem parse_of_perm (h : Reads arguments tokens) (h' : Reads arguments' tokens')
    (hperm : tokens'.Perm tokens) (hoperands : Token.operands tokens' = Token.operands tokens)
    (hvalues : ∀ flag, Token.values flag tokens' = Token.values flag tokens)
    (hparse : parse arguments = .ok options) : parse arguments' = .ok options := by
  obtain ⟨haccepted, hholds⟩ := (parse_eq_ok_iff h).mp hparse
  exact (parse_eq_ok_iff h').mpr
    ⟨fun token htoken => haccepted token (hperm.mem_iff.mp htoken),
      hholds.reorder hoperands hvalues⟩

/-- A flag and its value can be moved past tokens that do not set the flag. -/
theorem parse_move {before between : List String} {moved : List Token}
    (hbefore : Reads before tokens) (hbetween : Reads between moved)
    (hwhole : ∀ other, .bare other ∉ tokens ++ moved) (hfree : ∀ other, .option flag other ∉ moved)
    (value : String) (after : List String) :
    parse (before ++ flag.name :: value :: (between ++ after)) = .ok options ↔
      parse (before ++ (between ++ flag.name :: value :: after)) = .ok options := by
  obtain ⟨rest, hafter⟩ := Reads.exists_tokens after
  simp only [List.mem_append, not_or] at hwhole
  have hfirst : Reads (before ++ flag.name :: value :: (between ++ after))
      (tokens ++ .option flag value :: (moved ++ rest)) :=
    hbefore.append (fun other => (hwhole other).1)
      (.option flag value (hbetween.append (fun other => (hwhole other).2) hafter))
  have hlast : Reads (before ++ (between ++ flag.name :: value :: after))
      (tokens ++ (moved ++ .option flag value :: rest)) :=
    hbefore.append (fun other => (hwhole other).1)
      (hbetween.append (fun other => (hwhole other).2) (.option flag value hafter))
  have hperm : (tokens ++ (moved ++ .option flag value :: rest)).Perm
      (tokens ++ .option flag value :: (moved ++ rest)) :=
    List.perm_middle.append_left tokens
  have hoperands : Token.operands (tokens ++ (moved ++ .option flag value :: rest)) =
      Token.operands (tokens ++ .option flag value :: (moved ++ rest)) := by
    simp
  have hvalues : ∀ other, Token.values other (tokens ++ (moved ++ .option flag value :: rest)) =
      Token.values other (tokens ++ .option flag value :: (moved ++ rest)) := by
    intro other
    by_cases hother : other = flag
    · subst hother
      simp [Token.values_eq_nil hfree]
    · simp [Token.values_cons_of_ne hother]
  constructor
  · exact parse_of_perm hfirst hlast hperm hoperands hvalues
  · exact parse_of_perm hlast hfirst hperm.symm hoperands.symm fun other => (hvalues other).symm

/-- Arguments are read in one way only. They are options if all tokens that they are read as are
accepted, and the options hold the tokens; so it does not matter between which tokens a flag and its
value stand, as long as the order of its values is kept. -/
theorem parse_accepts_grammar :
    (∀ arguments, ∃! tokens, Reads arguments tokens) ∧
    (∀ arguments tokens, Reads arguments tokens →
      ((∃ options, parse arguments = .ok options) ↔ ∀ token ∈ tokens, token.Accepted) ∧
      ∀ options, parse arguments = .ok options ↔
        (∀ token ∈ tokens, token.Accepted) ∧ options.Holds tokens) ∧
    ∀ before between after tokens moved flag value options,
      Reads before tokens → Reads between moved → (∀ other, .bare other ∉ tokens ++ moved) →
      (∀ other, .option flag other ∉ moved) →
      (parse (before ++ flag.name :: value :: (between ++ after)) = .ok options ↔
        parse (before ++ (between ++ flag.name :: value :: after)) = .ok options) := by
  refine ⟨fun arguments => ?_, fun arguments tokens h => ?_, ?_⟩
  · obtain ⟨tokens, h⟩ := Reads.exists_tokens arguments
    exact ⟨tokens, h, fun other h' => h.unique h'⟩
  · exact ⟨exists_parse_iff h, fun options => parse_eq_ok_iff h⟩
  · intro before between after tokens moved flag value options hbefore hbetween hwhole hfree
    exact parse_move hbefore hbetween hwhole hfree value after

/-- A value may look like a flag, and the last count is the one that is taken. -/
theorem parse_accepts_grammar_lookalike :
    parse ["--config", "--report", "left", "--frames", "+3", "right", "--frames", "2"] =
      .ok { positional := ["left", "right"], frames := some 2, config := some "--report" } ∧
    parse ["left", "--config", "--report", "--frames", "+3", "right", "--frames", "2"] =
      .ok { positional := ["left", "right"], frames := some 2, config := some "--report" } := by
  have hplain : ¬ "left".startsWith "--" := by decide +kernel
  have hmoved := parse_accepts_grammar.2.2 [] ["left"] ["--frames", "+3", "right", "--frames", "2"]
    [] [.operand "left"] .config "--report"
    { positional := ["left", "right"], frames := some 2, config := some "--report" }
    .nil (.operand hplain .nil) (by simp) (by simp)
  have hparse : parse ["--config", "--report", "left", "--frames", "+3", "right", "--frames", "2"] =
      .ok { positional := ["left", "right"], frames := some 2, config := some "--report" } := by
    decide +kernel
  exact ⟨hparse, hmoved.mp hparse⟩

end Parsing

end Options

end RenderVerdict
