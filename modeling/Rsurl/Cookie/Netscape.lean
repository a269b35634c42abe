import Rsurl.Cookie.Jar

/-!
# The `cookies.txt` file

A line for each cookie, its fields separated by tabs. What the line cannot say (`SameSite`,
partitions) is lost; a line that makes no sense is skipped.
-/

namespace Rsurl.Cookies

open Text

/-! ## Writing -/

def hasJarSeparator (s : String) : Bool :=
  s.toList.any fun c => c == '\t' || c == '\r' || c == '\n'

def flag (b : Bool) : String := if b then "TRUE" else "FALSE"

def netscapeFields (c : Cookie) : List String :=
  [c.domain, flag (!c.hostOnly), c.path, flag c.secure, (c.expires.getD 0).repr, c.name, c.value]

def httpOnlyPrefix : String := "#HttpOnly_"

def netscapeLine (c : Cookie) : String :=
  (if c.httpOnly then httpOnlyPrefix else "") ++ "\t".intercalate (netscapeFields c)

def netscapeHeader : List String :=
  ["# Netscape HTTP Cookie File", "# https://curl.se/docs/http-cookies.html",
    "# This file was generated by rsurl. Edit at your own risk.", ""]

/-- A line of the file for a cookie the caller did not give, with no separator in a field. -/
def CookieJar.isSaved (jar : CookieJar) (c : Cookie) : Bool :=
  !jar.isExplicit c &&
    !(hasJarSeparator c.name || hasJarSeparator c.value || hasJarSeparator c.domain ||
      hasJarSeparator c.path)

/-- The contents of the file. -/
def CookieJar.saveNetscape (jar : CookieJar) : Bytes :=
  asBytes (String.join
    ((netscapeHeader ++ (jar.cookies.filter jar.isSaved).map netscapeLine).map (· ++ "\n")))

/-! ## Reading -/

inductive LineOutcome where
  | cookie (c : Cookie)
  /-- A comment, a blank line, or an entry that is not safe to keep. -/
  | skip
  | malformed
  deriving DecidableEq, Repr

def LineOutcome.cookie? : LineOutcome → Option Cookie
  | cookie c => some c
  | skip | malformed => none

/-- A line that is about a cookie: whether it is for HTTP only, and the fields. -/
def lineFields (line : String) : Option (Bool × List String) :=
  if startsWith httpOnlyPrefix line then
    some (true, split '\t' (String.ofList (line.toList.drop httpOnlyPrefix.toList.length)))
  else if line.toList.head? = some '#' || trim line = "" then none
  else some (false, split '\t' line)

/-- The fields of a line, the value empty if it is left out. -/
def parseFields (psl : SuffixList) (httpOnly : Bool)
    (domain flag path secure expires name value : String) : LineOutcome :=
  if domain = "" then .malformed
  else match parseI64 expires with
    | none => .malformed
    | some raw =>
      if name = "" then .malformed
      else if hasForbiddenCookieChar name || hasForbiddenCookieChar value then .skip
      else
        let domain := String.ofList (domain.toList.dropWhile (· == '.'))
        let hostOnly := !eqIgnoreAsciiCase flag "TRUE" || isIpLiteral domain
        if !hostOnly && !isScopableCookieDomain psl domain then .skip
        else .cookie
          { name, value, domain, path, expires := if raw ≤ 0 then none else some raw.toNat
            secure := eqIgnoreAsciiCase secure "TRUE", httpOnly, hostOnly
            sameSite := .unspecified, «partitioned» := false, partitionKey := none }

def parseNetscapeLine (psl : SuffixList) (line : String) : LineOutcome :=
  match lineFields line with
  | none => .skip
  | some (httpOnly, [domain, flag, path, secure, expires, name]) =>
    parseFields psl httpOnly domain flag path secure expires name ""
  | some (httpOnly, [domain, flag, path, secure, expires, name, value]) =>
    parseFields psl httpOnly domain flag path secure expires name value
  | some _ => .malformed

/-- Lines end in a line feed, with or without a carriage return (`BufRead::lines`); the last may
lack its end. -/
def fileLines (text : String) : List String :=
  let pieces := text.toList.splitOn '\n'
  let ended := pieces.dropLast.map fun line =>
    if line.getLast? = some '\r' then line.dropLast else line
  (ended ++ pieces.getLast?.toList.filter fun line => !line.isEmpty).map String.ofList

def CookieJar.loadNetscape (psl : SuffixList) (contents : Bytes) : Except Error CookieJar :=
  match fromUtf8 contents with
  | none => .error (.io .invalidData "stream did not contain valid UTF-8")
  | some text =>
    .ok { cookies := (fileLines text).filterMap fun line => (parseNetscapeLine psl line).cookie? }

/-! ## What comes back -/

theorem stripCr_of_not_mem {line : List Char} (h : '\r' ∉ line) :
    (if line.getLast? = some '\r' then line.dropLast else line) = line := by
  refine if_neg ?_
  intro hlast
  exact h (List.mem_of_getLast? hlast)

theorem splitOn_lines {lines : List (List Char)} (h : ∀ line ∈ lines, '\n' ∉ line) :
    (lines.flatMap fun line => line ++ ['\n']).splitOn '\n' = lines ++ [[]] := by
  induction lines with
  | nil => rfl
  | cons line rest ih =>
    rw [List.flatMap_cons, List.append_assoc, List.singleton_append,
      List.splitOn_append_cons_self_of_not_mem (h line List.mem_cons_self),
      ih fun l hl => h l (List.mem_cons_of_mem line hl), List.cons_append]

/-- Lines without a line end in them are read back as they were written. -/
theorem fileLines_join {lines : List String} (hn : ∀ line ∈ lines, '\n' ∉ line.toList)
    (hr : ∀ line ∈ lines, '\r' ∉ line.toList) :
    fileLines (String.join (lines.map (· ++ "\n"))) = lines := by
  have htext : (String.join (lines.map (· ++ "\n"))).toList =
      (lines.map String.toList).flatMap fun line => line ++ ['\n'] := by
    simp [List.flatMap_map, List.flatMap_def, Function.comp_def]
  have hsplit := @splitOn_lines (lines.map String.toList) (by simpa using hn)
  unfold fileLines
  rw [htext, hsplit]
  simp only [List.dropLast_concat, List.getLast?_concat, Option.toList_some, List.filter_cons,
    List.isEmpty_nil, Bool.not_true, Bool.false_eq_true, if_false, List.filter_nil,
    List.append_nil, List.map_map]
  refine (List.map_congr_left ?_).trans (List.map_id lines)
  intro line hline
  simp [stripCr_of_not_mem (hr line hline)]

end Rsurl.Cookies
