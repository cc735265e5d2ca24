/-
# `ResolvePath` and its arrays

`ResolvePath` works on arrays of `PATH_MAX` characters. The rest of the path is moved to the
start of `left` after each component, and `left_len` is lowered by the length of the
component. The slash behind the component is not subtracted, so the counter is ahead of the
text by the number of slashes that have been read. It ends the loop all the same: without
another slash the whole counter is taken for the last component, whose text ends where `left`
ends, and with a slash the counter stays positive.

The first part is about the texts alone: every absolute path that fits into the arrays has a
result, and the result is its normal form. The second part is the function with its arrays. A
cell outside of an array is an end without a result, and so is a loop that goes on; neither
happens for an absolute path that fits.
-/

import Hercules.Lib.Buffer
import Hercules.Lib.Loop
import Hercules.Policies
import Hercules.Client.Paths

namespace Hercules

open Lib Lib.Path MountPoint

/-! ## Texts -/

section Texts

variable {env : PathEnv} {names : List Name} {text token path : CString}

theorem length_render_enter_le (names : List Name) (token : CString) :
    (render (enter names token)).length ≤ (render names).length + (token.length + 1) := by
  rw [enter]
  split
  · simp
  · split
    · rcases List.eq_nil_or_concat names with rfl | ⟨before, last, rfl⟩
      · simp
      · rw [List.concat_eq_append, List.dropLast_concat, render_append, List.length_append]
        omega
    · omega

/-- There is a result for a component if there is room for it. -/
theorem exists_resolveToken (env : PathEnv) (token : CString) (hspells : PathEnv.Spells text names)
    (hroom : (render names).length + (token.length + 1) < env.pathMax) :
    ∃ text', env.resolveToken text token = some text' := by
  have hopened : (if text.getLast? = some '/' then some text
      else if env.pathMax ≤ text.length + 1 then none else some (text ++ ['/'])) =
        some (render names ++ ['/']) := by
    rcases hspells with rfl | rfl
    · rw [if_neg (getLast?_render_ne names), if_neg (by omega)]
    · rw [if_pos (by simp)]
  rw [PathEnv.resolveToken, hopened, Option.bind_some]
  split
  · exact ⟨_, rfl⟩
  · split
    · exact ⟨_, rfl⟩
    · rw [if_neg]
      · exact ⟨_, rfl⟩
      · simp only [List.length_append, List.length_singleton]
        omega

theorem resolveToken_ne_nil {text' : CString} (hspells : PathEnv.Spells text names)
    (htoken : '/' ∉ token) (hresult : env.resolveToken text token = some text') : text' ≠ [] := by
  rw [PathEnv.resolveToken_spells hspells htoken hresult, enter]
  split
  · simp
  · simp

/-- What a component and its slash add to the text is no longer than they are. -/
theorem exists_foldlM_resolveToken {tokens : List CString} (hspells : PathEnv.Spells text names)
    (htokens : ∀ token ∈ tokens, '/' ∉ token)
    (hroom : (render names).length + (tokens.map fun token => token.length + 1).sum <
      env.pathMax) :
    ∃ result, tokens.foldlM env.resolveToken text = some result := by
  induction tokens generalizing text names with
  | nil => exact ⟨text, rfl⟩
  | cons token tokens ih =>
      rw [List.forall_mem_cons] at htokens
      rw [List.map_cons, List.sum_cons] at hroom
      obtain ⟨text', htext'⟩ := exists_resolveToken env token hspells (by omega)
      have hlength := length_render_enter_le names token
      obtain ⟨result, hresult⟩ := ih (hspells.resolveToken htokens.1 htext') htokens.2 (by omega)
      refine ⟨result, ?_⟩
      rw [List.foldlM_cons, htext']
      exact hresult

/-- The result for an absolute path that fits. -/
theorem PathEnv.resolvePath_of_absolute (env : PathEnv) (habsolute : path.head? = some '/')
    (hlength : path.length < env.pathMax) :
    env.resolvePath path = some (render (normalise [] path) ++ trailOf path) := by
  obtain ⟨left, rfl⟩ := List.head?_eq_some_iff.mp habsolute
  rw [resolvePath, normalise_slash, trailOf_slash]
  by_cases hnil : left = []
  · rw [hnil]
    rfl
  · have hspells : Spells ['/'] [] := .inr rfl
    have hroom : (render []).length +
        ((components left).map fun token => token.length + 1).sum < env.pathMax := by
      rw [sum_length_components, render_nil, List.length_nil, Nat.zero_add]
      exact hlength
    obtain ⟨result, hresult⟩ :=
      exists_foldlM_resolveToken hspells (fun _ => slash_notMem_of_mem_components) hroom
    have hleft : env.resolveLeft ['/'] left = some result := by
      rw [List.length_cons] at hlength
      have hshort : 1 < env.pathMax := by
        have hpos := List.length_pos_iff.mpr hnil
        omega
      rw [resolveLeft, if_neg (by simp only [List.length_singleton]; omega), if_neg hnil, hresult]
    rw [if_neg (by simpa using hnil), if_pos habsolute, List.tail_cons, hleft,
      resolveLeft_eq hspells hnil hleft]

/-- The normal form of an absolute path. It begins with a slash, the components behind that are
names, except that there may be one slash at the end, and the names are those on the way to the
file of the path. -/
structure NormalForm (path result : CString) : Prop where
  absolute : result.head? = some '/'
  inner : ∀ component ∈ (components result).tail.dropLast, IsName component
  last : ∀ component ∈ (components result).getLast?, component = [] ∨ IsName component
  names : (components result).tail.filter (· ≠ []) = (normalise [] path).map Subtype.val

theorem head?_of_spells (hspells : PathEnv.Spells text names) (hne : text ≠ []) :
    text.head? = some '/' := by
  cases names with
  | nil =>
      rcases hspells with rfl | rfl
      · exact absurd rfl hne
      · rfl
  | cons name names => rcases hspells with rfl | rfl <;> simp

theorem normalise_ne_nil (htrail : trailOf path = []) : normalise [] path ≠ [] := by
  intro hnil
  have hne := render_append_trailOf_ne_nil [] path
  rw [hnil, htrail] at hne
  exact hne rfl

/-- The result for a path is its normal form. -/
theorem normalForm_resolved (path : CString) :
    NormalForm path (render (normalise [] path) ++ trailOf path) := by
  have hne := render_append_trailOf_ne_nil [] path
  rcases trailOf_cases path with htrail | htrail
  · have hnames := normalise_ne_nil htrail
    rw [htrail, List.append_nil] at hne ⊢
    refine ⟨head?_of_spells (.inl rfl) hne, ?_, ?_, ?_⟩
    · intro component hmem
      rw [components_render hnames] at hmem
      obtain ⟨name, -, rfl⟩ := List.mem_map.mp (List.mem_of_mem_dropLast hmem)
      exact name.2
    · intro component hlast
      exact .inr (isName_of_getLast?_render hnames hlast)
    · rw [components_render hnames, List.tail_cons, filter_names]
  · rw [htrail] at hne ⊢
    refine ⟨head?_of_spells (.inr rfl) hne, ?_, ?_, ?_⟩
    · intro component hmem
      rw [components_render_slash, List.tail_cons, List.dropLast_concat] at hmem
      obtain ⟨name, -, rfl⟩ := List.mem_map.mp hmem
      exact name.2
    · intro component hlast
      rw [getLast?_components_slash, Option.mem_some_iff] at hlast
      exact .inl hlast.symm
    · rw [components_render_slash, List.tail_cons, List.filter_append, filter_names]
      exact List.append_nil _

/-- The normal form leads where the path leads. -/
theorem normalise_resolved (path : CString) :
    normalise [] (render (normalise [] path) ++ trailOf path) = normalise [] path := by
  rcases trailOf_cases path with htrail | htrail
  · rw [htrail, List.append_nil, normalise_render, List.nil_append]
  · rw [htrail, normalise_slash_end, normalise_render, List.nil_append]

/-- The normal form keeps the slash at the end, or its absence. -/
theorem trailOf_resolved (path : CString) :
    trailOf (render (normalise [] path) ++ trailOf path) = trailOf path := by
  rcases trailOf_cases path with htrail | htrail
  · rw [htrail, List.append_nil, trailOf, if_pos]
    intro component hlast
    exact isName_of_getLast?_render (normalise_ne_nil htrail) hlast
  · rw [htrail, trailOf, getLast?_components_slash, if_neg]
    intro hnames
    exact absurd (hnames [] rfl) (by decide)

end Texts

/-! ## Arrays -/

/-- `PATH_MAX`. -/
def pathMax : Nat := 4096

theorem pathMax_lt : pathMax < 2 ^ 31 := by
  decide

/-- An array of `PATH_MAX` characters. -/
abbrev PathBuffer := Buffer Char pathMax

/-- What a call finds in memory: the array of the caller, the arrays of the call, which are not
initialised, and what `getcwd` would leave in the array of the caller, if it succeeds. -/
structure ResolveFrame where
  resolved : PathBuffer
  path : PathBuffer
  left : PathBuffer
  nextToken : PathBuffer
  cwd : Option PathBuffer

/-- The variables of the loop. -/
structure ResolveState where
  resolved : PathBuffer
  resolvedLen : Nat
  left : PathBuffer
  leftLen : Nat
  nextToken : PathBuffer

namespace ResolveState

/-- The next component is copied to `next_token`. If there is a slash behind it, what follows
the slash is moved to the start of `left`. -/
def takeToken (s : ResolveState) (slash : Option Nat) : Option ResolveState :=
  let tokenLen := slash.getD s.leftLen
  let leftLen := (s.leftLen + (2 ^ 64 - tokenLen)) % 2 ^ 64
  (s.nextToken.memcpy s.left tokenLen).bind fun nextToken =>
    (nextToken.write tokenLen [nul]).bind fun nextToken =>
      (if slash.isSome then s.left.memmove (tokenLen + 1) (leftLen + 1) else some s.left).map
        fun left => { s with left := left, leftLen := leftLen, nextToken := nextToken }

/-- `resolved[resolved_len - 1]`. -/
def lastChar (s : ResolveState) : Option Char :=
  if s.resolvedLen = 0 then none else s.resolved.get (s.resolvedLen - 1)

/-- A slash behind what is resolved so far. -/
def addSlash (s : ResolveState) : Option ResolveState :=
  (s.resolved.write s.resolvedLen ['/']).bind fun resolved =>
    (resolved.write (s.resolvedLen + 1) [nul]).map fun resolved =>
      { s with resolved := resolved, resolvedLen := s.resolvedLen + 1 }

/-- The component `..`. Without a slash `q` is not `NULL` but the address 1. -/
def toParent (s : ResolveState) : Option ResolveState :=
  if 1 < s.resolvedLen then
    (s.resolved.write (s.resolvedLen - 1) [nul]).bind fun resolved =>
      (resolved.strrchr nul '/').bind fun slash =>
        slash.bind fun slash =>
          (resolved.write (slash + 1) [nul]).map fun resolved =>
            { s with resolved := resolved, resolvedLen := slash + 1 }
  else some s

/-- The component in `next_token` is appended. -/
def appendToken (s : ResolveState) : Option (Round ResolveState (Int × PathBuffer)) :=
  (s.nextToken.cstring nul 0).bind fun token =>
    if token = [] ∨ token = ['.'] then some (.next s)
    else if token = ['.', '.'] then s.toParent.map .next
    else
      (s.resolved.strncat nul token pathMax).bind fun resolved =>
        (resolved.strlen nul).map fun resolvedLen =>
          if pathMax ≤ resolvedLen then .leave (-1, resolved)
          else .next { s with resolved := resolved, resolvedLen := resolvedLen }

/-- The second half of a round: a slash, if there is none, and the component. -/
def enterToken (s : ResolveState) : Option (Round ResolveState (Int × PathBuffer)) :=
  s.lastChar.bind fun last =>
    if last = '/' then s.appendToken
    else if pathMax ≤ s.resolvedLen + 1 then some (.leave (-1, s.resolved))
    else s.addSlash.bind appendToken

/-- A round of the loop. It is left when `left_len` is 0, and when a text is too long. -/
def round (s : ResolveState) : Option (Round ResolveState (Int × PathBuffer)) :=
  if s.leftLen = 0 then some (.leave (int32 s.resolvedLen, s.resolved))
  else
    (s.left.strchr nul '/').bind fun slash =>
      if pathMax ≤ slash.getD s.leftLen then some (.leave (-1, s.resolved))
      else (s.takeToken slash).bind enterToken

end ResolveState

namespace ResolveFrame

/-- The function from the copy to `left` on; the rest of the path begins at `start`. -/
def resolveLeft (fuel : Nat) (frame : ResolveFrame) (path : PathBuffer) (start : Nat)
    (resolved : PathBuffer) (resolvedLen : Nat) : Option (Int × PathBuffer) :=
  (path.cstring nul start).bind fun rest =>
    (frame.left.strncpy nul rest pathMax).bind fun left =>
      (left.strlen nul).bind fun leftLen =>
        if pathMax ≤ leftLen ∨ pathMax ≤ resolvedLen then some (-1, resolved)
        else loop ResolveState.round fuel ⟨resolved, resolvedLen, left, leftLen, frame.nextToken⟩

/-- `ResolvePath`: the return value and the array of the caller. -/
def resolvePath (fuel : Nat) (frame : ResolveFrame) (path_ : CString) :
    Option (Int × PathBuffer) :=
  (frame.path.strcpy nul path_).bind fun path =>
    (path.get 0).bind fun first =>
      if first = '/' then
        (frame.resolved.write 0 ['/', nul]).bind fun resolved =>
          (path.get 1).bind fun second =>
            if second = nul then some (1, resolved)
            else frame.resolveLeft fuel path 1 resolved 1
      else
        match frame.cwd with
        | none => (frame.resolved.write 0 ['.']).map fun resolved => (-1, resolved)
        | some resolved =>
            (resolved.strlen nul).bind fun resolvedLen =>
              frame.resolveLeft fuel path 0 resolved resolvedLen

/-- The call returns the length of `result` and leaves `result` in the array of the caller. -/
def Resolves (frame : ResolveFrame) (path result : CString) : Prop :=
  ∃ (rounds : Nat) (resolved : PathBuffer),
    (∀ fuel, rounds < fuel →
      frame.resolvePath fuel path = some ((result.length : Int), resolved)) ∧
    resolved.Holds nul result

end ResolveFrame

/-! ## A round -/

section Rounds

namespace ResolveState

variable {env : PathEnv} {s : ResolveState} {names : List Name}
  {text text' token rest remaining : CString}

/-- The arrays hold the rest of the path and what is resolved so far. `left_len` may be ahead of
the rest, as far as the array reaches. -/
structure Follows (s : ResolveState) (remaining text : CString) : Prop where
  left : s.left.Holds nul remaining
  length_le : remaining.length ≤ s.leftLen
  leftLen_lt : s.leftLen + 1 < pathMax
  resolved : s.resolved.Holds nul text
  resolvedLen : s.resolvedLen = text.length

/-- A component with a slash behind it. The counter is still at least one. -/
theorem Follows.takeToken_slash (h : s.Follows (token ++ '/' :: rest) text) :
    ∃ left nextToken,
      s.takeToken (some token.length) =
        some { s with left := left, leftLen := s.leftLen - token.length, nextToken := nextToken } ∧
      left.Holds nul rest ∧ nextToken.Holds nul token := by
  have hmax := pathMax_lt
  have hlength := h.length_le
  have hbound := h.leftLen_lt
  rw [List.length_append, List.length_cons] at hlength
  have hcounter : (s.leftLen + (2 ^ 64 - token.length)) % 2 ^ 64 = s.leftLen - token.length := by
    omega
  obtain ⟨copied, nextToken, hcopied, hended, htoken⟩ :=
    h.left.exists_memcpy s.nextToken (by omega : token.length ≤ pathMax) (by omega)
  rw [List.take_left] at htoken
  have hleft : s.left.Holds nul ((token ++ ['/']) ++ rest) := by
    rw [List.append_assoc]
    exact h.left
  obtain ⟨left, hmoved, hrest⟩ := hleft.exists_memmove
    (by omega : rest.length < s.leftLen - token.length + 1)
    (by rw [List.length_append, List.length_singleton]; omega)
  rw [List.length_append, List.length_singleton] at hmoved
  refine ⟨left, nextToken, ?_, hrest, htoken⟩
  simp only [takeToken, Option.getD_some, hcounter, hcopied, Option.bind_some, hended,
    Option.isSome_some, if_true, hmoved, Option.map_some]

/-- The last component. As many cells are copied as the counter says, and the text in them ends
with the rest of the path. -/
theorem Follows.takeToken_last (h : s.Follows token text) :
    ∃ nextToken, s.takeToken none = some { s with leftLen := 0, nextToken := nextToken } ∧
      nextToken.Holds nul token := by
  have hmax := pathMax_lt
  have hbound := h.leftLen_lt
  have hcounter : (s.leftLen + (2 ^ 64 - s.leftLen)) % 2 ^ 64 = 0 := by
    omega
  obtain ⟨copied, nextToken, hcopied, hended, htoken⟩ :=
    h.left.exists_memcpy s.nextToken (by omega : s.leftLen ≤ pathMax) (by omega)
  rw [List.take_of_length_le h.length_le] at htoken
  refine ⟨nextToken, ?_, htoken⟩
  simp only [takeToken, Option.getD_none, hcounter, hcopied, Option.bind_some, hended,
    Option.isSome_none, Bool.false_eq_true, if_false, Option.map_some]

/-- The slash before the component. -/
theorem exists_enterToken_eq {opened : CString} (hholds : s.resolved.Holds nul text)
    (hlen : s.resolvedLen = text.length) (hne : text ≠ []) (hmax : env.pathMax = pathMax)
    (hopened : (if text.getLast? = some '/' then some text
      else if env.pathMax ≤ text.length + 1 then none else some (text ++ ['/'])) = some opened) :
    ∃ resolved,
      s.enterToken =
        appendToken { s with resolved := resolved, resolvedLen := opened.length } ∧
      resolved.Holds nul opened := by
  have hpos := List.length_pos_iff.mpr hne
  have hlast : s.lastChar = text.getLast? := by
    rw [lastChar, if_neg (by omega), hlen, hholds.get (by omega), List.getLast?_eq_getElem?,
      List.getElem?_append_left (by omega)]
  obtain ⟨c, hc⟩ := Option.isSome_iff_exists.mp (List.getLast?_isSome.mpr hne)
  rw [enterToken, hlast, hc, Option.bind_some]
  rw [hc] at hopened
  by_cases hslash : c = '/'
  · rw [if_pos (by rw [hslash])] at hopened
    cases hopened
    refine ⟨s.resolved, ?_, hholds⟩
    rw [if_pos hslash, ← hlen]
  · rw [if_neg (by simpa using hslash), hmax] at hopened
    split at hopened
    next => cases hopened
    next hroom =>
      cases hopened
      obtain ⟨unended, resolved, hunended, hended, hresolved⟩ :=
        hholds.exists_push (by decide : nul ≠ '/') (by omega)
      refine ⟨resolved, ?_, hresolved⟩
      have hadd : s.addSlash =
          some { s with resolved := resolved, resolvedLen := text.length + 1 } := by
        rw [addSlash, hlen, hunended, Option.bind_some, hended, Option.map_some]
      rw [if_neg hslash, if_neg (by omega), hadd, List.length_append]
      rfl

/-- `..` takes the last name away. -/
theorem exists_toParent_eq (hholds : s.resolved.Holds nul (render names ++ ['/']))
    (hlen : s.resolvedLen = (render names ++ ['/']).length) :
    ∃ resolved,
      s.toParent = some { s with
        resolved := resolved
        resolvedLen := (render names.dropLast ++ ['/']).length } ∧
      resolved.Holds nul (render names.dropLast ++ ['/']) := by
  rcases List.eq_nil_or_concat names with rfl | ⟨before, last, rfl⟩
  · refine ⟨s.resolved, ?_, hholds⟩
    have hone : ¬ 1 < s.resolvedLen := by
      rw [hlen]
      decide
    rw [toParent, if_neg hone]
    congr 1
    rw [List.dropLast_nil, ← hlen]
  · have hrender : render (before.concat last) = render before ++ '/' :: last.1 := by
      simp
    rw [hrender] at hholds hlen
    rw [List.concat_eq_append, List.dropLast_concat]
    have hlen' : s.resolvedLen - 1 = (render before ++ '/' :: last.1).length := by
      rw [hlen, List.length_append, List.length_singleton, Nat.add_sub_cancel]
    have hlong : 1 < s.resolvedLen := by
      rw [hlen, List.length_append, List.length_append, List.length_cons, List.length_singleton]
      omega
    obtain ⟨cut, hcut, hcutHolds⟩ := hholds.exists_cut
    have hslash := hcutHolds.strrchr_append last.2.2.1
    have hparent : cut.Holds nul ((render before ++ ['/']) ++ last.1) := by
      rw [List.append_assoc]
      exact hcutHolds
    obtain ⟨resolved, hwrite, hresolved⟩ := hparent.exists_cut
    refine ⟨resolved, ?_, hresolved⟩
    rw [List.length_append, List.length_singleton] at hwrite ⊢
    rw [toParent, if_pos hlong, hlen', hcut, Option.bind_some, hslash, Option.bind_some,
      Option.bind_some, hwrite, Option.map_some]

/-- The component behind the slash. -/
theorem exists_appendToken_eq (hholds : s.resolved.Holds nul (render names ++ ['/']))
    (hlen : s.resolvedLen = (render names ++ ['/']).length) (htoken : s.nextToken.Holds nul token)
    (hslash : '/' ∉ token)
    (hroom : IsName token → (render names ++ ['/'] ++ token).length < pathMax) :
    ∃ resolved,
      s.appendToken = some (.next { s with
        resolved := resolved
        resolvedLen :=
          (render (enter names token) ++ if IsName token then [] else ['/']).length }) ∧
      resolved.Holds nul (render (enter names token) ++ if IsName token then [] else ['/']) := by
  rw [appendToken, htoken.cstring_zero, Option.bind_some]
  by_cases hstay : token = [] ∨ token = ['.']
  · have hnone : ¬ IsName token := by
      rcases hstay with rfl | rfl <;> decide
    have hsame : enter names token = names := by
      rcases hstay with rfl | rfl <;> simp [enter, IsName]
    rw [if_pos hstay, if_neg hnone, hsame]
    refine ⟨s.resolved, ?_, hholds⟩
    rw [← hlen]
  · rw [if_neg hstay]
    by_cases hup : token = ['.', '.']
    · subst hup
      have hnone : ¬ IsName ['.', '.'] := by decide
      rw [if_pos rfl, if_neg hnone, enter, dif_neg hnone, if_pos rfl]
      obtain ⟨resolved, hparent, hresolved⟩ := exists_toParent_eq hholds hlen
      refine ⟨resolved, ?_, hresolved⟩
      rw [hparent, Option.map_some]
    · rw [if_neg hup]
      rw [not_or] at hstay
      have hname : IsName token := ⟨hstay.1, hslash, hstay.2, hup⟩
      have hfits := hroom hname
      rw [List.length_append] at hfits
      obtain ⟨resolved, hcat, hresolved⟩ :=
        hholds.exists_strncat htoken.free (htoken.length_lt.le) hfits
      have hrender : render (enter names token) ++ [] = render names ++ ['/'] ++ token := by
        rw [enter, dif_pos hname]
        simp
      rw [if_pos hname, hrender]
      refine ⟨resolved, ?_, hresolved⟩
      rw [hcat, Option.bind_some, hresolved.strlen, Option.map_some, if_neg]
      exact Nat.not_le.mpr hresolved.length_lt

/-- The second half of a round does what `resolveToken` does with the texts. -/
theorem exists_enterToken (hholds : s.resolved.Holds nul text) (hlen : s.resolvedLen = text.length)
    (hspells : PathEnv.Spells text names) (hne : text ≠ []) (htoken : s.nextToken.Holds nul token)
    (hslash : '/' ∉ token) (hmax : env.pathMax = pathMax)
    (hstep : env.resolveToken text token = some text') :
    ∃ resolved,
      s.enterToken =
        some (.next { s with resolved := resolved, resolvedLen := text'.length }) ∧
      resolved.Holds nul text' := by
  have hresult := PathEnv.resolveToken_spells hspells hslash hstep
  obtain ⟨opened, hopened, hstep⟩ := Option.bind_eq_some_iff.mp hstep
  obtain ⟨withSlash, henter, hwithSlash⟩ := exists_enterToken_eq hholds hlen hne hmax hopened
  obtain rfl := PathEnv.opened_spells hspells hopened
  have hroom : IsName token → (render names ++ ['/'] ++ token).length < pathMax := by
    rintro ⟨hnil, -, hdot, hdots⟩
    rw [if_neg (not_or.mpr ⟨hnil, hdot⟩), if_neg hdots, hmax] at hstep
    split at hstep
    next => cases hstep
    next hfits => exact Nat.not_le.mp hfits
  rw [henter, hresult]
  exact exists_appendToken_eq hwithSlash rfl htoken hslash hroom

/-- A round before the last one. -/
theorem Follows.exists_round_slash (h : s.Follows (token ++ '/' :: rest) text)
    (hspells : PathEnv.Spells text names) (hne : text ≠ []) (hslash : '/' ∉ token)
    (hmax : env.pathMax = pathMax) (hstep : env.resolveToken text token = some text') :
    ∃ s', s.round = some (.next s') ∧ s'.Follows rest text' ∧ s'.leftLen ≠ 0 := by
  have hlength := h.length_le
  have hbound := h.leftLen_lt
  rw [List.length_append, List.length_cons] at hlength
  obtain ⟨left, nextToken, htake, hrest, htoken⟩ := h.takeToken_slash
  obtain ⟨resolved, henter, hresolved⟩ := exists_enterToken
    (s := { s with left := left, leftLen := s.leftLen - token.length, nextToken := nextToken })
    h.resolved h.resolvedLen hspells hne htoken hslash hmax hstep
  refine ⟨⟨resolved, text'.length, left, s.leftLen - token.length, nextToken⟩, ?_,
    ⟨hrest, ?_, ?_, hresolved, rfl⟩, ?_⟩
  · rw [round, if_neg (by omega), h.left.strchr_append hslash, Option.bind_some, Option.getD_some,
      if_neg (by omega), htake, Option.bind_some, henter]
  · change rest.length ≤ s.leftLen - token.length
    omega
  · change s.leftLen - token.length + 1 < pathMax
    omega
  · change s.leftLen - token.length ≠ 0
    omega

/-- The last round. -/
theorem Follows.exists_round_last (h : s.Follows token text) (hleft : s.leftLen ≠ 0)
    (hspells : PathEnv.Spells text names) (hne : text ≠ []) (hslash : '/' ∉ token)
    (hmax : env.pathMax = pathMax) (hstep : env.resolveToken text token = some text') :
    ∃ s', s.round = some (.next s') ∧ s'.leftLen = 0 ∧ s'.resolved.Holds nul text' ∧
      s'.resolvedLen = text'.length := by
  have hbound := h.leftLen_lt
  obtain ⟨nextToken, htake, htoken⟩ := h.takeToken_last
  obtain ⟨resolved, henter, hresolved⟩ := exists_enterToken
    (s := { s with leftLen := 0, nextToken := nextToken })
    h.resolved h.resolvedLen hspells hne htoken hslash hmax hstep
  refine ⟨⟨resolved, text'.length, s.left, 0, nextToken⟩, ?_, rfl, hresolved, rfl⟩
  rw [round, if_neg hleft, h.left.strchr_of_notMem hslash, Option.bind_some, Option.getD_none,
    if_neg (by omega), htake, Option.bind_some, henter]

/-- There are `n` rounds to come, and the texts in them lead to `result`. The counter is 0 only
after the last of them. -/
def Awaits (env : PathEnv) (result : CString) : Nat → ResolveState → Prop
  | 0, s => s.leftLen = 0 ∧ s.resolved.Holds nul result ∧ s.resolvedLen = result.length
  | n + 1, s =>
      s.leftLen ≠ 0 ∧ ∃ remaining text names, s.Follows remaining text ∧
        PathEnv.Spells text names ∧ text ≠ [] ∧ (components remaining).length = n + 1 ∧
        (components remaining).foldlM env.resolveToken text = some result

theorem Awaits.exists_round {result : CString} {n : Nat} (hmax : env.pathMax = pathMax)
    (h : Awaits env result (n + 1) s) :
    ∃ s', s.round = some (.next s') ∧ Awaits env result n s' := by
  obtain ⟨hleft, remaining, text, names, hfollows, hspells, hne, hrounds, hresult⟩ := h
  induction remaining using components_induction with
  | single token hslash =>
      rw [components_of_notMem hslash] at hrounds hresult
      obtain ⟨text', hstep, hend⟩ := Option.bind_eq_some_iff.mp hresult
      cases hend
      obtain rfl : n = 0 := by
        rw [List.length_singleton] at hrounds
        omega
      exact hfollows.exists_round_last hleft hspells hne hslash hmax hstep
  | slash token rest hslash _ =>
      rw [components_cons hslash] at hrounds hresult
      rw [List.foldlM_cons] at hresult
      obtain ⟨text', hstep, hend⟩ := Option.bind_eq_some_iff.mp hresult
      obtain ⟨s', hround, hfollows', hleft'⟩ :=
        hfollows.exists_round_slash hspells hne hslash hmax hstep
      rw [List.length_cons, Nat.succ_inj] at hrounds
      have hpos := List.length_pos_iff.mpr (components_ne_nil rest)
      obtain ⟨m, rfl⟩ := Nat.exists_eq_succ_of_ne_zero (by omega : n ≠ 0)
      exact ⟨s', hround, hleft', rest, text', _, hfollows', hspells.resolveToken hslash hstep,
        resolveToken_ne_nil hspells hslash hstep, hrounds, hend⟩

theorem Awaits.exists_loop {result : CString} {n : Nat} (hmax : env.pathMax = pathMax)
    (h : Awaits env result n s) :
    ∃ resolved : PathBuffer,
      (∀ fuel, n < fuel → loop round fuel s = some ((result.length : Int), resolved)) ∧
      resolved.Holds nul result := by
  have hnext : ∀ n s, Awaits env result (n + 1) s →
      ∃ s', round s = some (.next s') ∧ Awaits env result n s' := by
    intro n s hawaits
    exact hawaits.exists_round hmax
  have hleave : ∀ s, Awaits env result 0 s → ∃ returned, round s = some (.leave returned) ∧
      returned.1 = result.length ∧ returned.2.Holds nul result := by
    rintro s ⟨hleft, hresolved, hlen⟩
    refine ⟨_, if_pos hleft, ?_, hresolved⟩
    have hlt := hresolved.length_lt
    have hsmall := pathMax_lt
    rw [hlen, int32_of_fits (by omega) (by omega)]
  obtain ⟨⟨value, resolved⟩, hloop, hvalue, hresolved⟩ := loop_of_invariant hnext hleave h
  refine ⟨resolved, fun fuel hfuel => ?_, hresolved⟩
  rw [hloop fuel hfuel]
  congr 2

end ResolveState

end Rounds

/-! ## A call -/

section Calls

namespace ResolveFrame

variable {env : PathEnv} {frame : ResolveFrame} {names : List Name}
  {text rest path result : CString}

theorem exists_resolveLeft (frame : ResolveFrame) {copied resolved : PathBuffer} {start : Nat}
    (hmax : env.pathMax = pathMax) (hcopied : copied.cstring nul start = some rest)
    (hfree : nul ∉ rest) (hfits : rest.length + 1 < pathMax) (hresolved : resolved.Holds nul text)
    (hspells : PathEnv.Spells text names) (hne : text ≠ [])
    (hresult : env.resolveLeft text rest = some result) :
    ∃ (rounds : Nat) (resolved' : PathBuffer),
      (∀ fuel, rounds < fuel → frame.resolveLeft fuel copied start resolved text.length =
        some ((result.length : Int), resolved')) ∧
      resolved'.Holds nul result := by
  obtain ⟨left, hleft, hrest⟩ := frame.left.exists_strncpy hfree (by omega)
  have hroom := hresolved.length_lt
  have hloop : ∀ fuel, frame.resolveLeft fuel copied start resolved text.length =
      loop ResolveState.round fuel ⟨resolved, text.length, left, rest.length, frame.nextToken⟩ := by
    intro fuel
    rw [resolveLeft, hcopied, Option.bind_some, hleft, Option.bind_some, hrest.strlen,
      Option.bind_some, if_neg (by omega)]
  have hawaits : ∃ n, ResolveState.Awaits env result n
      ⟨resolved, text.length, left, rest.length, frame.nextToken⟩ := by
    rw [PathEnv.resolveLeft] at hresult
    split at hresult
    · cases hresult
    · split at hresult
      next hnil =>
        cases hresult
        exact ⟨0, by rw [hnil]; rfl, hresolved, rfl⟩
      next hnil =>
        have hpos := List.length_pos_iff.mpr (components_ne_nil rest)
        obtain ⟨n, hn⟩ := Nat.exists_eq_succ_of_ne_zero hpos.ne'
        have hlength := List.length_pos_iff.mpr hnil
        exact ⟨n + 1, hlength.ne', rest, text, names, ⟨hrest, le_rfl, hfits, hresolved, rfl⟩,
          hspells, hne, hn, hresult⟩
  obtain ⟨n, hawaits⟩ := hawaits
  obtain ⟨resolved', hreturns, hresolved'⟩ := hawaits.exists_loop hmax
  exact ⟨n, resolved', fun fuel hfuel => (hloop fuel).trans (hreturns fuel hfuel), hresolved'⟩

/-- A call with an absolute path has the result that the texts have. -/
theorem resolves_of_absolute (frame : ResolveFrame) (hmax : env.pathMax = pathMax)
    (hfree : nul ∉ path) (habsolute : path.head? = some '/') (hlength : path.length < pathMax)
    (hresult : env.resolvePath path = some result) : frame.Resolves path result := by
  obtain ⟨left, rfl⟩ := List.head?_eq_some_iff.mp habsolute
  obtain ⟨copied, hcopy, hcopied⟩ := frame.path.exists_strcpy hfree hlength
  have hslash : nul ∉ ['/'] := by decide
  obtain ⟨resolved, hwrite, hresolved⟩ :=
    frame.resolved.exists_write_zero_holds hslash List.prefix_rfl (by decide)
  have hfirst : copied.get 0 = some '/' := hcopied.get (Nat.zero_le _)
  have hsecond : copied.get 1 = (left ++ [nul])[0]? := hcopied.get (by simp)
  have hcall : ∀ fuel, frame.resolvePath fuel ('/' :: left) =
      ((left ++ [nul])[0]?).bind fun second =>
        if second = nul then some (1, resolved)
        else frame.resolveLeft fuel copied 1 resolved 1 := by
    intro fuel
    rw [resolvePath, hcopy, Option.bind_some, hfirst, Option.bind_some, if_pos rfl]
    rw [show (['/', nul] : List Char) = ['/'] ++ [nul] from rfl, hwrite, Option.bind_some, hsecond]
  rw [PathEnv.resolvePath] at hresult
  cases left with
  | nil =>
      rw [if_pos rfl] at hresult
      cases hresult
      exact ⟨0, resolved, fun fuel _ => hcall fuel, hresolved⟩
  | cons c left =>
      rw [if_neg (by simp), if_pos habsolute, List.tail_cons] at hresult
      have hrest : copied.Holds nul (['/'] ++ c :: left) := hcopied
      have hfree' : nul ∉ c :: left := fun hmem => hfree (List.mem_cons_of_mem _ hmem)
      have hspells : PathEnv.Spells ['/'] [] := .inr rfl
      have hc : c ≠ nul := by
        rintro rfl
        exact hfree' List.mem_cons_self
      obtain ⟨rounds, resolved', hreturns, hresolved'⟩ := frame.exists_resolveLeft hmax
        hrest.cstring_append hfree' hlength hresolved hspells (by simp) hresult
      refine ⟨rounds, resolved', fun fuel hfuel => ?_, hresolved'⟩
      rw [hcall, List.cons_append, List.getElem?_cons_zero, Option.bind_some, if_neg hc]
      exact hreturns fuel hfuel

/-- An absolute path shorter than `PATH_MAX` is resolved to its normal form, whatever is in
memory, and the normal form is resolved to itself. -/
theorem resolvePath_normalForm (path : CString) (hfree : nul ∉ path)
    (habsolute : path.head? = some '/') (hlength : path.length < pathMax) :
    ∃ result, NormalForm path result ∧
      ∀ frame : ResolveFrame, frame.Resolves path result ∧ frame.Resolves result result := by
  -- neither the mount point nor the working directory has a part in this
  have hexists : ∃ env : PathEnv, env.pathMax = pathMax := ⟨⟨[], [], none, pathMax⟩, rfl⟩
  obtain ⟨env, hmax⟩ := hexists
  have hnormal := normalForm_resolved path
  have hresult := env.resolvePath_of_absolute habsolute (by rwa [hmax])
  refine ⟨_, hnormal, fun frame => ?_⟩
  have hresolves := frame.resolves_of_absolute hmax hfree habsolute hlength hresult
  refine ⟨hresolves, ?_⟩
  obtain ⟨_, resolved, -, hholds⟩ := hresolves
  have hagain := env.resolvePath_of_absolute hnormal.absolute
    (by rw [hmax]; exact hholds.length_lt)
  rw [normalise_resolved, trailOf_resolved] at hagain
  exact frame.resolves_of_absolute hmax hholds.free hnormal.absolute hholds.length_lt hagain

/-- `/a/./b//../c/`. -/
def examplePath : CString :=
  "/a/./b//../c/".toList

theorem resolvePath_examplePath :
    (nul ∉ examplePath ∧ examplePath.head? = some '/' ∧ examplePath.length < pathMax) ∧
      ∃ result, NormalForm examplePath result ∧
        ∀ frame : ResolveFrame, frame.Resolves examplePath result ∧ frame.Resolves result result :=
  ⟨⟨by decide, by decide, by decide⟩,
    resolvePath_normalForm examplePath (by decide) (by decide) (by decide)⟩

example : render (normalise [] examplePath) ++ trailOf examplePath = "/a/c/".toList := by
  decide

end ResolveFrame

end Calls

end Hercules
