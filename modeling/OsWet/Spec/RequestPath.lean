import OsWet.ForStd.Path
import OsWet.Native.Request

/-!
# Where the files of a request are

`requestParseURI` looks for two dots anywhere in the URI, before it puts the file name together.
So no component of the name leads up, and the file is below `./public`.
-/

namespace OsWet

open Text

/-- The part of the path below `./public` that `requestParseURI` makes of a URI. -/
def belowPublic (uri : Text) (beforeUri : Char) : Text :=
  if (find (text "..") uri).isSome then text "home.html"
  else if (find (text "cgi") uri).isNone then
    if uri.getLast?.getD beforeUri = '/' then uri ++ text "home.html" else uri
  else uri.takeWhile (· ≠ '?')

/-- The file name is that of something below `public`. -/
theorem requestParseURI_filename (uri cgiargs : Text) (beforeUri : Char) :
    (requestParseURI uri cgiargs beforeUri).filename =
      text "./public/" ++ belowPublic uri beforeUri := by
  unfold requestParseURI belowPublic
  split
  · rfl
  · split
    · dsimp only
      split
      · rw [List.append_assoc]
      · rfl
    · rfl

/-- `home.html` is one component. -/
theorem components_home : Path.components '/' (text "home.html") = [text "home.html"] := by
  decide

/-- For every URI, the file is below `./public`, and so is every directory on the way to it. -/
theorem requestParseURI_staysBelow (uri cgiargs : Text) (beforeUri : Char) :
    ∃ path, (requestParseURI uri cgiargs beforeUri).filename = text "./public/" ++ path ∧
      Path.StaysBelow '/' '.' path := by
  refine ⟨belowPublic uri beforeUri, requestParseURI_filename uri cgiargs beforeUri, ?_⟩
  have hhome : ['.', '.'] ∉ Path.components '/' (text "home.html") := by
    rw [components_home]
    decide
  unfold belowPublic
  split
  case isTrue => exact .of_not_mem hhome
  case isFalse hdots =>
    have huri : ¬ ['.', '.'] <:+: uri := fun h => hdots (findPattern_isSome.mpr h)
    split
    case isTrue =>
      split
      case isTrue hslash =>
        rcases List.eq_nil_or_concat uri with rfl | ⟨init, last, rfl⟩
        · exact .of_not_mem hhome
        · -- The URI ends with a slash, so `home.html` is a component of its own.
          have hlast : last = '/' := by simpa using hslash
          subst hlast
          apply Path.StaysBelow.of_not_mem
          rw [List.concat_append, Path.components_append, List.mem_append]
          intro h
          rcases h with hinit | h
          · exact huri ((Path.infix_of_mem_components hinit).trans (List.prefix_concat _ _).isInfix)
          · exact hhome h
      case isFalse => exact .of_noDots huri
    case isFalse =>
      apply Path.StaysBelow.of_noDots
      exact fun h => huri (h.trans (List.takeWhile_prefix _).isInfix)

end OsWet
