import TemplateLint.Grammar.Binding

/-!
# Markup

Elements, fragments, attributes and the text between tags. Inside an element only
the parts between angle brackets and braces take trivia; the text between tags is
kept as it is.
-/

namespace TemplateLint.Grammar

open TemplateLint.Syntax

def tagPart : Parser Ident := nameOf .tagPart

def namespacedName : Parser TagName :=
  .namespaced <$> (tagPart <* mark ":") <*> tagPart <* trivia

def memberName : Parser TagName :=
  (fun object first rest => (first :: rest).foldl .member (.simple object)) <$>
    tagPart <*> (mark "." *> tagPart) <*> .many (mark "." *> tagPart) <* trivia

def simpleName : Parser TagName := .simple <$> tagPart <* trivia

def elementName : Parser TagName := namespacedName <|> memberName <|> simpleName

def markup : Parser Node := (jsxFragment <|> jsxElement) <* trivia

def container : Parser Node := node (.jsxContainer <$> braced expression)

def attributeString : Parser Node :=
  node ((fun raw => .literal (verbatimValue (unquoted raw.toList)) raw) <$> lexeme .tagString)

def attributeValue : Parser Node :=
  symbol "=" *> (attributeString <|> container <|> markup)

def attribute_ : Parser Node :=
  node (.jsxSpreadAttribute <$> braced (symbol "..." *> assignment))
    <|> node (.jsxAttribute <$> (namespacedName <|> simpleName) <*> .optional attributeValue)

def tagHead : Parser (TagName × List Node) :=
  Prod.mk <$> (symbol "<" *> elementName) <*> .many attribute_

def childBody : Parser (Sum Node Node) :=
  Sum.inl <$> (symbol "..." *> expression) <|> Sum.inr <$> expression

/-- An expression between braces among the children of an element. Without an
expression, the empty expression stands where the trivia ends. -/
def childContainer : Parser Node :=
  node ((fun (blank : Extent × Unit) body =>
      match body with
      | some (.inl expression) => .jsxSpreadChild expression
      | some (.inr expression) => .jsxContainer expression
      | none => .jsxContainer ⟨⟨blank.1.stop, blank.1.stop⟩, .jsxEmpty⟩) <$>
    (mark "\x7b" *> .located trivia) <*> .optional childBody <* mark "\x7d")

def child : Parser Node :=
  node (.jsxText <$> .terminal .tagText) <|> childContainer <|> jsxElement <|> jsxFragment

def selfClosingElement : Parser Node :=
  (fun (extent, name, attributes) =>
      let span : Span := ⟨extent.start, extent.content⟩
      ⟨span, .jsxElement ⟨span, .jsxOpening name attributes true⟩ [] none⟩) <$>
    .located (tagHead <* mark "/>")

def openingTag : Parser (TagName × Node) :=
  (fun (extent, name, attributes) =>
      (name, ⟨⟨extent.start, extent.content⟩, .jsxOpening name attributes false⟩)) <$>
    .located (tagHead <* mark ">")

def closingTag : Parser (TagName × Node) :=
  (fun (extent, name) => (name, ⟨⟨extent.start, extent.content⟩, .jsxClosing name⟩)) <$>
    .located (symbol "</" *> elementName <* mark ">")

/-- An element with children; the closing tag has the name of the opening one. -/
def fullElement : Parser Node :=
  node (.check ((fun opening children closing => (opening, children, closing)) <$>
      openingTag <*> .many child <*> closingTag)
    fun (opening, children, closing) =>
      let expected := opening.1.render
      let found := closing.1.render
      if expected == found then .ok (.jsxElement opening.2 children (some closing.2))
      else .error (.closingTag closing.2.start expected found))

def jsxElementBody : Parser Node := selfClosingElement <|> fullElement

def jsxFragmentBody : Parser Node :=
  node (.jsxFragment <$>
    (symbol "<" *> mark ">" *> .many child <* symbol "</" <* mark ">"))

end TemplateLint.Grammar
