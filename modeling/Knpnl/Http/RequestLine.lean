import Knpnl.Http.Lines

/-!
# The grammar of a request line

`parseRequest` accepts a line that is made of a method, a target and a version with blanks between
them. A target in absolute form is meant to be reduced to its path: the member `url` is moved to
the first slash, which is one of the scheme's, and the test for a slash then reads the pointer
`_url`, which has not moved.
-/
namespace Knpnl.Http

open Lib.CString
open HttpRequest (parseRequest)

def IsMethod (method : METHOD) (m : Bytes) : Prop :=
  method = .GET ∧ AnyCase m (ascii "GET") ∨ method = .POST ∧ AnyCase m (ascii "POST")

/-- One or more spaces or tabs. -/
def Gap (g : Bytes) : Prop := g ≠ [] ∧ ∀ c ∈ g, c ∈ blanks

instance (method : METHOD) (m : Bytes) : Decidable (IsMethod method m) :=
  inferInstanceAs (Decidable (_ ∨ _))

instance (g : Bytes) : Decidable (Gap g) := inferInstanceAs (Decidable (_ ∧ _))

/-- `line` is a request line of the grammar. -/
inductive RequestLine (line : Bytes) (method : METHOD) (target version : Bytes) : Prop where
  | parts (m gap gap' : Bytes) (line_eq : line = m ++ gap ++ target ++ gap' ++ version)
      (isMethod : IsMethod method m) (blank : Gap gap) (blank' : Gap gap')
      (slash : target.head? = some 47) (token : ∀ c ∈ target, c ∉ blanks)
      (isVersion : AnyCase version (ascii "HTTP/1.1"))

/-- The bytes between the second run of blanks and the next, a leading run apart. -/
def secondToken (line : Bytes) : Bytes :=
  (((line.dropWhile (· ∈ blanks)).dropWhile (· ∉ blanks)).dropWhile (· ∈ blanks)).takeWhile (· ∉ blanks)

section
variable {line m gap target rest version : Bytes} {method : METHOD} {c : UInt8}

theorem isMethod_iff (hm : 0 ∉ m) : IsMethod method m ↔ methodOf m = some method := by
  have hget := strcasecmp_eq_zero hm (b := ascii "GET") (by decide)
  have hpost := strcasecmp_eq_zero hm (b := ascii "POST") (by decide)
  unfold IsMethod methodOf
  simp only [hget, hpost]
  by_cases hg : AnyCase m (ascii "GET")
  · have hp : ¬ AnyCase m (ascii "POST") := fun hp => by
      have := hg.length.symm.trans hp.length
      simp [ascii] at this
    simp [hg, hp, eq_comm]
  · by_cases hp : AnyCase m (ascii "POST") <;> simp [hg, hp, eq_comm]

theorem IsMethod.blankFree (h : IsMethod method m) : ∀ c ∈ m, c ∉ blanks := by
  have hfold : ∀ c ∈ blanks,
      tolower c ∉ (ascii "GET").map tolower ∧ tolower c ∉ (ascii "POST").map tolower := by
    decide
  intro c hc hblank
  rcases h with ⟨_, h⟩ | ⟨_, h⟩
  · exact h.not_mem (hfold c hblank).1 hc
  · exact h.not_mem (hfold c hblank).2 hc

theorem IsMethod.nulFree (h : IsMethod method m) : 0 ∉ m := by
  rcases h with ⟨_, h⟩ | ⟨_, h⟩
  all_goals exact h.not_mem (by decide)

theorem Gap.nulFree (h : Gap gap) : 0 ∉ gap := fun h0 => absurd (h.2 0 h0) (by decide)

theorem IsMethod.ne_nil (h : IsMethod method m) : m ≠ [] := by
  rintro rfl
  rcases h with ⟨_, h⟩ | ⟨_, h⟩
  all_goals simp [AnyCase, ascii] at h

theorem version_blankFree (h : AnyCase version (ascii "HTTP/1.1")) : ∀ c ∈ version, c ∉ blanks := by
  have hfold : ∀ c ∈ blanks, tolower c ∉ (ascii "HTTP/1.1").map tolower := by decide
  exact fun c hc hblank => h.not_mem (hfold c hblank) hc

theorem version_ne_nil (h : AnyCase version (ascii "HTTP/1.1")) : version ≠ [] := by
  rintro rfl
  simp [AnyCase, ascii] at h

/-- Blanks are skipped up to the first byte of what follows. -/
theorem dropWhile_blanks {u : Bytes} (hgap : ∀ c ∈ gap, c ∈ blanks) (hu : ∀ c ∈ u, c ∉ blanks) (hne : u ≠ [])
    (v : Bytes) : (gap ++ u ++ v).dropWhile (· ∈ blanks) = u ++ v := by
  rw [List.append_assoc, List.dropWhile_append_of_pos (by simpa using hgap)]
  cases u with
  | nil => exact absurd rfl hne
  | cons d u => simp [hu d (by simp)]

/-- A run of bytes that begins with a blank. -/
theorem Gap.cons (h : ∀ d ∈ gap, d ∈ blanks) (hc : c ∈ blanks) : Gap (c :: gap) :=
  ⟨by simp, by simpa [hc] using h⟩

theorem takeWhile_blanks (s : Bytes) : ∀ c ∈ s.takeWhile (· ∈ blanks), c ∈ blanks := fun c hc => by
  simpa using List.mem_takeWhile_imp hc

theorem split_blanks (s : Bytes) : s = s.takeWhile (· ∈ blanks) ++ s.dropWhile (· ∈ blanks) :=
  List.takeWhile_append_dropWhile.symm

/-- The second token of a line whose first byte is not a blank. -/
theorem secondToken_eq (hm : ∀ d ∈ m, d ∉ blanks) (hne : m ≠ []) (hc : c ∈ blanks)
    (htarget : ∀ d ∈ target, d ∉ blanks) {d : UInt8} (hd : d ∈ blanks)
    (hcut : rest.dropWhile (· ∈ blanks) = target ++ d :: version) :
    secondToken (m ++ c :: rest) = target := by
  have hnil : ∀ c ∈ ([] : Bytes), c ∈ blanks := fun c hc => absurd hc List.not_mem_nil
  have hfirst : (m ++ c :: rest).dropWhile (· ∈ blanks) = m ++ c :: rest :=
    dropWhile_blanks hnil hm hne (c :: rest)
  have hmethod : (m ++ c :: rest).dropWhile (· ∉ blanks) = c :: rest := by
    rw [List.dropWhile_append_of_pos (by simpa using hm)]
    simp [hc]
  have hblanks : (c :: rest).dropWhile (· ∈ blanks) = rest.dropWhile (· ∈ blanks) := by simp [hc]
  unfold secondToken
  rw [hfirst, hmethod, hblanks, hcut, List.takeWhile_append_of_pos (by simpa using htarget)]
  simp [hd]

/-- Where a line with three parts is cut. -/
structure CutParts (line m target version rest rest' : Bytes) : Prop where
  first : cut blanks line = some (m, rest)
  second : cut blanks (rest.dropWhile (· ∈ blanks)) = some (target, rest')
  last : rest'.dropWhile (· ∈ blanks) = version
  subset : rest ⊆ line

theorem cutParts {gap' : Bytes} (hm : ∀ c ∈ m, c ∉ blanks) (hgap : Gap gap) (htarget : ∀ c ∈ target, c ∉ blanks)
    (htne : target ≠ []) (hgap' : Gap gap') (hversion : ∀ c ∈ version, c ∉ blanks) (hvne : version ≠ []) :
    ∃ rest rest', CutParts (m ++ gap ++ target ++ gap' ++ version) m target version rest rest' := by
  obtain ⟨hne, hblank⟩ := hgap
  obtain ⟨hne', hblank'⟩ := hgap'
  obtain ⟨c, gap, rfl⟩ := List.exists_cons_of_ne_nil hne
  obtain ⟨c', gap', rfl⟩ := List.exists_cons_of_ne_nil hne'
  have hline : m ++ c :: gap ++ target ++ c' :: gap' ++ version =
      m ++ c :: (gap ++ target ++ c' :: (gap' ++ version)) := by simp
  refine ⟨gap ++ target ++ c' :: (gap' ++ version), gap' ++ version, ⟨?_, ?_, ?_, ?_⟩⟩
  · rw [hline]
    exact cut_append hm (hblank c (by simp))
  · rw [dropWhile_blanks (fun d hd => hblank d (List.mem_cons_of_mem c hd)) htarget htne]
    exact cut_append htarget (hblank' c' (by simp))
  · have hskip := dropWhile_blanks (fun d hd => hblank' d (List.mem_cons_of_mem c' hd)) hversion hvne []
    rwa [List.append_nil, List.append_nil] at hskip
  · rw [hline]
    exact fun d hd => List.mem_append_right m (List.mem_cons_of_mem c hd)

/-- The rules of the reference are the grammar. -/
theorem requestRules_iff (hnul : 0 ∉ line) :
    requestRules line = some (method, target, version) ↔ RequestLine line method target version := by
  rw [HttpRequest.requestRules_eq]
  constructor
  · intro h
    obtain ⟨⟨m, rest⟩, hcut, h⟩ := Option.bind_eq_some_iff.mp h
    obtain ⟨method', hmethod, h⟩ := Option.bind_eq_some_iff.mp h
    obtain ⟨⟨target', version'⟩, htarget, heq⟩ := Option.map_eq_some_iff.mp h
    obtain ⟨rfl, rfl, rfl⟩ : method' = method ∧ target' = target ∧ version' = version := by simpa using heq
    obtain ⟨hm, c, hc, rfl⟩ := cut_eq_some hcut
    obtain ⟨⟨target'', rest'⟩, hcut', hrules⟩ := Option.bind_eq_some_iff.mp htarget
    obtain ⟨htoken, c', hc', hrest⟩ := cut_eq_some hcut'
    obtain ⟨⟨hversion, hslash⟩, rfl, rfl⟩ : (strcasecmp (rest'.dropWhile (· ∈ blanks)) (ascii "HTTP/1.1") = 0 ∧
        target''.head? = some 47) ∧ target'' = target' ∧ rest'.dropWhile (· ∈ blanks) = version' := by
      simpa using hrules
    have hsplit := split_blanks rest
    rw [hrest] at hsplit
    have hnul' : 0 ∉ rest'.dropWhile (· ∈ blanks) := fun h0 => hnul (by
      have := (List.dropWhile_sublist _).subset h0
      rw [hsplit]
      simp [this])
    refine .parts m (c :: rest.takeWhile (· ∈ blanks)) (c' :: rest'.takeWhile (· ∈ blanks)) ?_
      ((isMethod_iff fun h0 => hnul (by simp [h0])).mpr hmethod) (Gap.cons (takeWhile_blanks _) hc)
      (Gap.cons (takeWhile_blanks _) hc') hslash htoken ((strcasecmp_eq_zero hnul' (by decide)).mp hversion)
    conv_lhs => rw [hsplit, split_blanks rest']
    simp
  · rintro ⟨m, gap, gap', rfl, hmethod, hgap, hgap', hslash, htoken, hversion⟩
    obtain ⟨rest, rest', hcut⟩ := cutParts hmethod.blankFree hgap htoken (by rintro rfl; cases hslash) hgap'
      (version_blankFree hversion) (version_ne_nil hversion)
    have hvnul : 0 ∉ version := hversion.not_mem (by decide)
    rw [hcut.first, Option.bind_some, (isMethod_iff fun h0 => hnul (by simp [h0])).mp hmethod, Option.bind_some]
    unfold HttpRequest.targetRules
    rw [hcut.second]
    simp [hcut.last, (strcasecmp_eq_zero hvnul (by decide)).mpr hversion, hslash]

end

section
variable {line : Bytes}

/-- What a line that is refused leaves as it was. -/
structure Untouched (req req' : HttpRequest) : Prop where
  url : req'.url = req.url
  version : req'.version = req.version
  state : req'.mCheckState = req.mCheckState

theorem parseTarget_refused (req : HttpRequest) (p : Bytes) {s : Bytes} (hnul : 0 ∉ s)
    (htoken : ∀ target d rest, s.dropWhile (· ∈ blanks) = target ++ d :: rest → (∀ c ∈ target, c ∉ blanks) →
      d ∈ blanks → ¬ AnyCase (target.take 7) (ascii "http://"))
    (hrules : HttpRequest.targetRules s = none) (t : Bytes) :
    Untouched req (HttpRequest.parseTarget req (p ++ (s ++ 0 :: t)) p.length).2.1 := by
  rw [HttpRequest.parseTarget_eq req p hnul t]
  unfold HttpRequest.targetRules at hrules
  cases hcut : cut blanks (s.dropWhile (· ∈ blanks)) with
  | none => exact ⟨rfl, rfl, rfl⟩
  | some q =>
    obtain ⟨target, rest⟩ := q
    obtain ⟨hblank, d, hd, hrest⟩ := cut_eq_some hcut
    have hmem : ∀ c ∈ target, c ∈ s := by
      intro c hc
      apply (List.dropWhile_sublist (· ∈ blanks)).subset
      rw [hrest]
      exact List.mem_append_left _ hc
    have hhttp : ¬ strncasecmp target (ascii "http://") 7 = 0 := fun h =>
      htoken target d rest hrest hblank hd
        ((strncasecmp_eq_zero (fun h0 => hnul (hmem 0 h0)) (by decide) (by decide)).mp h)
    simp only [hcut, Option.bind_eq_bind, Option.bind_some, ite_eq_right_iff, reduceCtorEq, imp_false,
      not_and] at hrules
    simp only [HttpRequest.absoluteForm, hhttp, ↓reduceIte]
    split
    · exact ⟨rfl, rfl, rfl⟩
    · rename_i hversion
      rw [if_pos (hrules (not_not.mp hversion))]
      exact ⟨rfl, rfl, rfl⟩

theorem parseRequest_refused (req : HttpRequest) (hnul : 0 ∉ line)
    (htoken : ¬ AnyCase ((secondToken line).take 7) (ascii "http://")) (hrules : requestRules line = none)
    (t : Bytes) : Untouched req (parseRequest req (line ++ 0 :: t)).2.1 := by
  rw [HttpRequest.parseRequest_eq req hnul t]
  rw [HttpRequest.requestRules_eq] at hrules
  cases hcut : cut blanks line with
  | none => exact ⟨rfl, rfl, rfl⟩
  | some p =>
    obtain ⟨m, rest⟩ := p
    obtain ⟨hm, c, hc, rfl⟩ := cut_eq_some hcut
    cases hmethod : methodOf m with
    | none =>
      simp only [hmethod]
      exact ⟨rfl, rfl, rfl⟩
    | some method =>
      have hne := ((isMethod_iff fun h0 => hnul (by simp [h0])).mpr hmethod).ne_nil
      have htarget : HttpRequest.targetRules rest = none := by simpa [hcut, hmethod] using hrules
      simp only [hmethod]
      have hleft := parseTarget_refused { req with method := some method } (m ++ [0])
        (fun h0 => hnul (by simp [h0])) (fun target d rest' hrest hblank hd => ?_) htarget t
      · exact ⟨hleft.url, hleft.version, hleft.state⟩
      · rwa [secondToken_eq hm hne hc hblank hd hrest] at htoken

/-- A line whose target is not in absolute form is accepted if and only if it is one of the
grammar. Its parts are stored and the headers come next; a line that is refused leaves `url`,
`version` and the state. -/
theorem parseRequest_grammar (req : HttpRequest) (hnul : 0 ∉ line)
    (htoken : ¬ AnyCase ((secondToken line).take 7) (ascii "http://")) (t : Bytes) :
    ((parseRequest req (line ++ 0 :: t)).1 = .NO_REQUEST ↔
        ∃ method target version, RequestLine line method target version) ∧
      (∀ method target version, RequestLine line method target version →
        (parseRequest req (line ++ 0 :: t)).2.1 =
          { req with
            method := some method, url := target, version, mCheckState := .CHECK_STATE_HEADER }) ∧
      ((parseRequest req (line ++ 0 :: t)).1 ≠ .NO_REQUEST →
        (parseRequest req (line ++ 0 :: t)).1 = .BAD_REQUEST ∧
          Untouched req (parseRequest req (line ++ 0 :: t)).2.1) := by
  have hcall := HttpRequest.parseRequest_rules req hnul t
  cases hrules : requestRules line with
  | none =>
    rw [hrules] at hcall
    have hnone : ∀ method target version, ¬ RequestLine line method target version := by
      intro method target version h
      cases hrules.symm.trans ((requestRules_iff hnul).mpr h)
    refine ⟨⟨fun h => ?_, fun ⟨method, target, version, h⟩ => absurd h (hnone _ _ _)⟩,
      fun method target version h => absurd h (hnone _ _ _), fun _ => ⟨hcall.1, ?_⟩⟩
    · cases hcall.1.symm.trans h
    · exact parseRequest_refused req hnul htoken hrules t
  | some q =>
    obtain ⟨method, target, version⟩ := q
    rw [hrules] at hcall
    obtain ⟨s', _, hout⟩ := hcall
    have hline := (requestRules_iff hnul).mp hrules
    rw [hout]
    refine ⟨iff_of_true rfl ⟨_, _, _, hline⟩, fun method' target' version' h => ?_, fun h => absurd rfl h⟩
    obtain ⟨rfl, rfl, rfl⟩ : method = method' ∧ target = target' ∧ version = version' := by
      simpa using hrules.symm.trans ((requestRules_iff hnul).mpr h)
    rfl

/-- Two blanks, a tab, and letters of either case. -/
theorem parseRequest_grammar_blanks :
    (parseRequest {} (ascii "get  /a\thttp/1.1" ++ [0])).1 = .NO_REQUEST ∧
      (parseRequest {} (ascii "get  /a\thttp/1.1" ++ [0])).2.1 =
        { method := some .GET, url := ascii "/a", version := ascii "http/1.1",
          mCheckState := .CHECK_STATE_HEADER } := by
  have hline : RequestLine (ascii "get  /a\thttp/1.1") .GET (ascii "/a") (ascii "http/1.1") :=
    .parts (ascii "get") [32, 32] [9] (by decide) (.inl ⟨rfl, by decide⟩) (by decide) (by decide) rfl
      (by decide) (by decide)
  obtain ⟨haccepted, hfields, _⟩ :=
    parseRequest_grammar {} (show 0 ∉ ascii "get  /a\thttp/1.1" by decide) (by decide) []
  exact ⟨haccepted.mpr ⟨_, _, _, hline⟩, hfields _ _ _ hline⟩

end

/-- `line` is a request line with a target in absolute form, and `short` the line with the path
of that target in its place. -/
inductive AbsoluteLine (line short path : Bytes) : Prop where
  | parts (method : METHOD) (m gap scheme authority gap' version : Bytes)
      (line_eq : line = m ++ gap ++ (scheme ++ authority ++ path) ++ gap' ++ version)
      (short_eq : short = m ++ gap ++ path ++ gap' ++ version)
      (isMethod : IsMethod method m) (blank : Gap gap) (blank' : Gap gap')
      (isScheme : AnyCase scheme (ascii "http://")) (nonempty : authority ≠ [])
      (host : ∀ c ∈ authority, c ≠ 47 ∧ c ∉ blanks ∧ c ≠ 0)
      (slash : path.head? = some 47) (token : ∀ c ∈ path, c ∉ blanks ∧ c ≠ 0)
      (isVersion : AnyCase version (ascii "HTTP/1.1"))

/-- The line is accepted with the url `path`, as the line `short` is. -/
def ReducedToPath (req : HttpRequest) (t line short path : Bytes) : Prop :=
  (parseRequest req (line ++ 0 :: t)).1 = .NO_REQUEST ∧
    (parseRequest req (line ++ 0 :: t)).2.1.url = path ∧
    (parseRequest req (line ++ 0 :: t)).2.1 = (parseRequest req (short ++ 0 :: t)).2.1

section
variable {line short path : Bytes}

theorem eq_slash_of_tolower {c : UInt8} (h : tolower c = 47) : c = 47 := by
  unfold tolower at h
  split at h
  · rename_i hcase
    have h1 := UInt8.le_iff_toNat_le.mp hcase.1
    have h2 := UInt8.le_iff_toNat_le.mp hcase.2
    have h3 := congrArg UInt8.toNat h
    simp only [UInt8.toNat_add, UInt8.reduceToNat] at h1 h2 h3
    omega
  · exact h

/-- The first slash of a target in absolute form is one of the scheme's. -/
theorem strchr_scheme {scheme : Bytes} (h : AnyCase scheme (ascii "http://")) (rest : Bytes) :
    strchr (scheme ++ rest) 47 = some 5 ∧ (scheme ++ rest).drop 5 = ascii "//" ++ rest := by
  obtain ⟨word, slashes, rfl, hword, hslashes⟩ : ∃ word slashes, scheme = word ++ slashes ∧
      word.map tolower = (ascii "http:").map tolower ∧ slashes.map tolower = [47, 47] :=
    List.map_eq_append_iff.mp h
  obtain ⟨c, slashes, rfl, hc, hrest⟩ := List.map_eq_cons_iff.mp hslashes
  obtain ⟨d, slashes, rfl, hd, hnil⟩ := List.map_eq_cons_iff.mp hrest
  obtain rfl := List.map_eq_nil_iff.mp hnil
  obtain rfl := eq_slash_of_tolower hc
  obtain rfl := eq_slash_of_tolower hd
  have hlen : word.length = 5 := AnyCase.length hword
  have hfirst : (47 : UInt8) ∉ word := AnyCase.not_mem hword (by decide)
  refine ⟨?_, ?_⟩
  · rw [List.append_assoc]
    exact (strchr_append hfirst _).trans (congrArg some hlen)
  · rw [List.append_assoc, ← hlen, List.drop_left]
    rfl

theorem scheme_head {scheme : Bytes} (h : AnyCase scheme (ascii "http://")) (rest : Bytes) :
    (scheme ++ rest).head? ≠ some 47 := by
  cases scheme with
  | nil => simp [AnyCase, ascii] at h
  | cons c scheme =>
    intro hc
    obtain rfl : c = 47 := by simpa using hc
    exact absurd (List.cons.inj h).1 (by decide)

/-- The line is refused, and the member `url` is left at the slashes of the scheme. -/
theorem AbsoluteLine.parseRequest_eq (h : AbsoluteLine line short path) (req : HttpRequest) (t : Bytes) :
    (parseRequest req (line ++ 0 :: t)).1 = .BAD_REQUEST ∧
      ∃ authority, (parseRequest req (line ++ 0 :: t)).2.1.url = ascii "//" ++ authority ++ path := by
  obtain ⟨method, m, gap, scheme, authority, gap', version, rfl, _, hmethod, hgap, hgap', hscheme, _,
    hhost, _, htoken, hversion⟩ := h
  have hsne : scheme ≠ [] := by
    rintro rfl
    simp [AnyCase, ascii] at hscheme
  have htarget : ∀ c ∈ scheme ++ authority ++ path, c ∉ blanks := by
    have hfold : ∀ c ∈ blanks, tolower c ∉ (ascii "http://").map tolower := by decide
    intro c hc hblank
    simp only [List.mem_append] at hc
    rcases hc with (hc | hc) | hc
    · exact hscheme.not_mem (hfold c hblank) hc
    · exact (hhost c hc).2.1 hblank
    · exact (htoken c hc).1 hblank
  obtain ⟨rest, rest', hcut⟩ := cutParts hmethod.blankFree hgap htarget (by simp [hsne]) hgap'
    (version_blankFree hversion) (version_ne_nil hversion)
  have hnul : 0 ∉ m ++ gap ++ (scheme ++ authority ++ path) ++ gap' ++ version := by
    simp only [List.mem_append, not_or]
    refine ⟨⟨⟨⟨hmethod.nulFree, hgap.nulFree⟩, ⟨hscheme.not_mem (by decide), ?_⟩, ?_⟩, hgap'.nulFree⟩,
      hversion.not_mem (by decide)⟩
    · exact fun h0 => (hhost 0 h0).2.2 rfl
    · exact fun h0 => (htoken 0 h0).2 rfl
  generalize m ++ gap ++ (scheme ++ authority ++ path) ++ gap' ++ version = line at hcut hnul
  have hvnul : 0 ∉ version := hversion.not_mem (by decide)
  obtain ⟨hchr, hdrop⟩ := strchr_scheme hscheme (authority ++ path)
  have htake : strncasecmp (scheme ++ (authority ++ path)) (ascii "http://") 7 = 0 := by
    have hlen : scheme.length = 7 := hscheme.length
    rw [strncasecmp, ← hlen, List.take_left, hlen]
    exact (strcasecmp_eq_zero (hscheme.not_mem (by decide)) (by decide)).mpr hscheme
  have hhead : (scheme ++ (authority ++ path)).head? ≠ some 47 := scheme_head hscheme _
  rw [HttpRequest.parseRequest_eq req hnul t]
  simp only [hcut.first, (isMethod_iff hmethod.nulFree).mp hmethod]
  rw [HttpRequest.parseTarget_eq _ _ (fun h0 => hnul (hcut.subset h0)) t]
  simp only [hcut.second, hcut.last, (strcasecmp_eq_zero hvnul (by decide)).mpr hversion, List.append_assoc,
    HttpRequest.absoluteForm, htake, hchr, hdrop, ↓reduceIte, ne_eq, not_true_eq_false, hhead,
    not_false_eq_true, true_and]
  exact ⟨authority, rfl⟩

/-- No target in absolute form is reduced to its path. -/
theorem reducedToPath_never (h : AbsoluteLine line short path) (req : HttpRequest) (t : Bytes) :
    ¬ ReducedToPath req t line short path := by
  intro hreduced
  cases hreduced.1.symm.trans (h.parseRequest_eq req t).1

end

theorem absoluteLine_host :
    AbsoluteLine (ascii "GET http://a/b HTTP/1.1") (ascii "GET /b HTTP/1.1") (ascii "/b") :=
  .parts .GET (ascii "GET") (ascii " ") (ascii "http://") (ascii "a") (ascii " ") (ascii "HTTP/1.1") (by decide)
    (by decide) (by decide) (by decide) (by decide) (by decide) (by decide) (by decide) (by decide) (by decide)
    (by decide)

theorem reducedToPath_never_host :
    ¬ ReducedToPath {} [] (ascii "GET http://a/b HTTP/1.1") (ascii "GET /b HTTP/1.1") (ascii "/b") :=
  reducedToPath_never absoluteLine_host {} []

/-- Every target in absolute form is reduced to its path. -/
def AlwaysReduced : Prop :=
  ∀ req t line short path, AbsoluteLine line short path → ReducedToPath req t line short path

theorem alwaysReduced_host : ¬ AlwaysReduced := by
  intro hclaim
  have hreduced := hclaim {} [] _ _ _ absoluteLine_host
  exact absurd hreduced.1 (by decide)

end Knpnl.Http
