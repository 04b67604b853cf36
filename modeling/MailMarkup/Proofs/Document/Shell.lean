import MailMarkup.Document.Shell

namespace MailMarkup.Text

def isAscii (c : Char) : Bool := c.toNat < 128

end MailMarkup.Text

namespace MailMarkup.Document

open Text Markup

theorem shell_eq (title extra tag content : Text) :
    shell title extra tag content =
      join ['\n'] [doctype, htmlOpening, "<head>".toList, headMeta, titleTag title, settingsBlock,
        stylesheet] ++ '\n' :: ((if extra = [] then [] else extra ++ ['\n']) ++
        ("</head>".toList ++ '\n' :: (tag ++ '\n' :: (content ++
          "\n</body>\n</html>\n".toList)))) := by
  have hrest : join ['\n'] ["</head>".toList, tag, content, "</body>".toList, "</html>".toList] ++
      ['\n'] = "</head>".toList ++ '\n' :: (tag ++ '\n' :: (content ++
        "\n</body>\n</html>\n".toList)) := by
    simp [join, List.intercalate]
  rw [shell, List.append_assoc, join_append (List.cons_ne_nil _ _) (by simp), List.append_assoc]
  rw [List.append_cancel_left_eq, List.cons_append, List.cons_eq_cons]
  refine ⟨rfl, ?_⟩
  cases extra with
  | nil => exact hrest
  | cons c e =>
    rw [if_neg (by simp), if_neg (by simp), join_append (by simp) (by simp), List.append_assoc,
      List.cons_append, hrest]
    simp [join, List.intercalate]

theorem join_seven (a b c d e f g : Text) : join ['\n'] [a, b, c, d, e, f, g] =
    a ++ '\n' :: (b ++ '\n' :: (c ++ '\n' :: (d ++ '\n' :: (e ++ '\n' :: (f ++ '\n' :: g))))) := by
  simp [join]

theorem shell_eq_parts (title extra tag content : Text) : shell title extra tag content =
    doctype ++ '\n' :: (htmlOpening ++ '\n' :: ("<head>".toList ++ '\n' :: (headMeta ++ '\n' ::
      ("<title>".toList ++ (title ++ ("</title>".toList ++ '\n' :: (settingsBlock ++ '\n' ::
        (stylesheet ++ '\n' :: ((if extra = [] then [] else extra ++ ['\n']) ++
          ("</head>".toList ++ '\n' :: (tag ++ '\n' :: (content ++
            "\n</body>\n</html>\n".toList)))))))))))) := by
  refine (shell_eq ..).trans ?_
  have hs (a b c d e e' e'' f g t u : Text) : join ['\n'] [a, b, c, d, e ++ e' ++ e'', f, g] ++
      '\n' :: (t ++ u) = a ++ '\n' :: (b ++ '\n' :: (c ++ '\n' :: (d ++ '\n' :: (e ++ (e' ++ (e'' ++
        '\n' :: (f ++ '\n' :: (g ++ '\n' :: (t ++ u)))))))))  := by
    simp [join_seven]
  exact hs doctype htmlOpening "<head>".toList headMeta "<title>".toList title "</title>".toList
    settingsBlock stylesheet _ _

end MailMarkup.Document
