import LintTypes.Proofs.Tokens
import LintTypes.Types.Basic

/-!
# Written forms

The token sequences that write a type or a declaration. Parentheses are needed around a union inside
an intersection, around both in front of `[]`, and around a type directly inside one of its own
kind; they may stand around any type. A type may begin with `|`, its alternatives with `&`; the
members of an object type may be separated by `;`, `,` or nothing, and a tuple may end in a comma.

The forms of the parts of a type are relations over `nested`, the relation for the types inside.
`Written` is the least relation that agrees with the form of unions over itself.
-/

namespace LintTypes.Source

/-- The names that stand for no declared type. -/
def reservedNames : List String := "true" :: "false" :: Keyword.all.map Keyword.text

/-- Items with separators between them. -/
inductive Joined {α : Type} (item : α → List Token → Prop) (separator : Token) :
    List α → List Token → Prop where
  /-- One item. -/
  | single {a : α} {tokens : List Token} (h : item a tokens) : Joined item separator [a] tokens
  /-- An item, a separator and further items. -/
  | cons {a : α} {items : List α} {tokens more : List Token} (h : item a tokens)
      (hs : Joined item separator items more) :
      Joined item separator (a :: items) (tokens ++ separator :: more)

/-- A token that is there or not. -/
def Token.when (present : Bool) (token : Token) : List Token := if present then [token] else []

section Forms

variable (nested : TypeExpr → List Token → Prop)

/-- A tuple slot. -/
inductive SlotForm : Slot → List Token → Prop where
  /-- The type of the slot between its marks. -/
  | slot {type : TypeExpr} {tokens : List Token} (isOptional isRest : Bool)
      (h : nested type tokens) :
      SlotForm ⟨type, isOptional, isRest⟩
        (Token.dots.when isRest ++ (tokens ++ (Token.symbol '?').when isOptional))

/-- What a member is found under. -/
inductive KeyForm : MemberKey → List Token → Prop where
  /-- A bare property name. -/
  | bare {name : String} (h : isIdentifier name = true) : KeyForm (.named name) [.name name]
  /-- A quoted property name. -/
  | quoted (name : String) : KeyForm (.named name) [.string name]
  /-- An index signature. -/
  | index {param : String} {type : TypeExpr} {tokens : List Token}
      (hp : isIdentifier param = true) (h : nested type tokens) :
      KeyForm (.index param type)
        (.symbol '[' :: .name param :: .symbol ':' :: (tokens ++ [.symbol ']']))

/-- A member of an object type; comments are not part of it. -/
inductive MemberForm : Member → List Token → Prop where
  /-- The key and the type with the marks of the member. -/
  | member {key : MemberKey} {type : TypeExpr} {keyTokens tokens : List Token}
      (isOptional isReadonly : Bool) (hk : KeyForm nested key keyTokens) (h : nested type tokens) :
      MemberForm ⟨key, type, isOptional, isReadonly, none⟩
        ((Token.name "readonly").when isReadonly
          ++ (keyTokens ++ ((Token.symbol '?').when isOptional ++ (.symbol ':' :: tokens))))

/-- The members of an object type. -/
inductive MembersForm : List Member → List Token → Prop where
  /-- No members. -/
  | nil : MembersForm [] []
  /-- A member, possibly a separator, and further members. -/
  | cons {member : Member} {members : List Member} {tokens separator more : List Token}
      (h : MemberForm nested member tokens)
      (hsep : separator = [] ∨ separator = [.symbol ';'] ∨ separator = [.symbol ','])
      (hs : MembersForm members more) :
      MembersForm (member :: members) (tokens ++ (separator ++ more))

/-- A type that needs no parentheses anywhere. -/
inductive PrimaryForm : TypeExpr → List Token → Prop where
  /-- A reserved word. -/
  | keyword (word : Keyword) : PrimaryForm (.keyword word) [.name word.text]
  /-- A truth value. -/
  | bool (value : Bool) :
      PrimaryForm (.literal (.bool value)) [.name (if value then "true" else "false")]
  /-- A string. -/
  | string (value : String) : PrimaryForm (.literal (.string value)) [.string value]
  /-- A number. -/
  | number (text : String) : PrimaryForm (.literal (.number text)) [.number text]
  /-- A declared type. -/
  | reference {name : String} (h : name ∉ reservedNames) :
      PrimaryForm (.reference name []) [.name name]
  /-- A declared type with arguments. -/
  | generic {name : String} {args : List TypeExpr} {tokens : List Token}
      (h : name ∉ reservedNames) (ha : Joined nested (.symbol ',') args tokens) :
      PrimaryForm (.reference name args)
        (.name name :: .symbol '<' :: (tokens ++ [.symbol '>']))
  /-- Any type in parentheses. -/
  | parentheses {type : TypeExpr} {tokens : List Token} (h : nested type tokens) :
      PrimaryForm type (.symbol '(' :: (tokens ++ [.symbol ')']))
  /-- A tuple without slots. -/
  | emptyTuple : PrimaryForm (.tuple []) [.symbol '[', .symbol ']']
  /-- A tuple with slots. -/
  | tuple {slots : List Slot} {tokens : List Token} (comma : Bool)
      (h : Joined (SlotForm nested) (.symbol ',') slots tokens) :
      PrimaryForm (.tuple slots)
        (.symbol '[' :: (tokens ++ ((Token.symbol ',').when comma ++ [.symbol ']'])))
  /-- An object type. -/
  | object {members : List Member} {tokens : List Token} (h : MembersForm nested members tokens) :
      PrimaryForm (.object members) (.symbol '{' :: (tokens ++ [.symbol '}']))

/-- A type in front of which an operator may stand. -/
inductive ArrayForm : TypeExpr → List Token → Prop where
  /-- No brackets. -/
  | primary {type : TypeExpr} {tokens : List Token} (h : PrimaryForm nested type tokens) :
      ArrayForm type tokens
  /-- Brackets behind the type of the elements. -/
  | array {type : TypeExpr} {tokens : List Token} (h : ArrayForm type tokens) :
      ArrayForm (.array type) (tokens ++ [.symbol '[', .symbol ']'])

/-- A type that may be an alternative of a union. -/
inductive IntersectionForm : TypeExpr → List Token → Prop where
  /-- A single type. -/
  | single {type : TypeExpr} {tokens : List Token} (lead : Bool)
      (h : ArrayForm nested type tokens) :
      IntersectionForm type ((Token.symbol '&').when lead ++ tokens)
  /-- Several types. -/
  | several {first second : TypeExpr} {others : List TypeExpr} {tokens : List Token} (lead : Bool)
      (h : Joined (ArrayForm nested) (.symbol '&') (first :: second :: others) tokens) :
      IntersectionForm (.intersection (first :: second :: others))
        ((Token.symbol '&').when lead ++ tokens)

/-- A type. -/
inductive UnionForm : TypeExpr → List Token → Prop where
  /-- A single alternative. -/
  | single {type : TypeExpr} {tokens : List Token} (lead : Bool)
      (h : IntersectionForm nested type tokens) :
      UnionForm type ((Token.symbol '|').when lead ++ tokens)
  /-- Several alternatives. -/
  | several {first second : TypeExpr} {others : List TypeExpr} {tokens : List Token} (lead : Bool)
      (h : Joined (IntersectionForm nested) (.symbol '|') (first :: second :: others) tokens) :
      UnionForm (.union (first :: second :: others)) ((Token.symbol '|').when lead ++ tokens)

end Forms

/-- The token sequences that write a type. -/
inductive Written : TypeExpr → List Token → Prop where
  /-- The types inside are written in the same manner. -/
  | mk {type : TypeExpr} {tokens : List Token} (h : UnionForm Written type tokens) :
      Written type tokens

/-- The interfaces that an interface extends. -/
inductive ParentsForm : List TypeExpr → List Token → Prop where
  /-- None. -/
  | nil : ParentsForm [] []
  /-- Some. -/
  | parents {types : List TypeExpr} {tokens : List Token}
      (h : Joined (ArrayForm Written) (.symbol ',') types tokens) :
      ParentsForm types (.name "extends" :: tokens)

/-- The token sequences that write a declaration; comments are not part of it. -/
inductive DeclarationForm : Declaration → List Token → Prop where
  /-- An alias. -/
  | typeAlias {name : String} {type : TypeExpr} {tokens : List Token}
      (hn : isIdentifier name = true) (h : Written type tokens) :
      DeclarationForm (.typeAlias name type none)
        (.name "type" :: .name name :: .symbol '=' :: tokens)
  /-- An interface. -/
  | interface {name : String} {parents : List TypeExpr} {members : List Member}
      {parentTokens tokens : List Token} (hn : isIdentifier name = true)
      (hp : ParentsForm parents parentTokens) (h : MembersForm Written members tokens) :
      DeclarationForm (.interface name parents members none)
        (.name "interface" :: .name name :: (parentTokens
          ++ (.symbol '{' :: (tokens ++ [.symbol '}']))))

/-- The token sequences that write declarations, each between the words and the semicolon that may
stand around it. -/
inductive DeclarationsForm : Declarations → List Token → Prop where
  /-- No declarations. -/
  | nil : DeclarationsForm [] []
  /-- A declaration and further ones. -/
  | cons {declaration : Declaration} {declarations : Declarations} {tokens more : List Token}
      (isExported isDeclared terminated : Bool) (h : DeclarationForm declaration tokens)
      (hs : DeclarationsForm declarations more) :
      DeclarationsForm (declaration :: declarations)
        ((Token.name "export").when isExported ++ ((Token.name "declare").when isDeclared
          ++ (tokens ++ ((Token.symbol ';').when terminated ++ more))))

end LintTypes.Source
