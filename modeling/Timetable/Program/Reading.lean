import Timetable.Json.Decode
import Timetable.Program.Record

/-!
# Reading the description of a program

The fields of each record in the order in which an array lists them, and what is assumed of fields
that are left out.
-/

set_option autoImplicit false

namespace Timetable

open Json (Decoder Record)

/-- An identifier is written as its number, which fits 32 bits. -/
def Id.decoder {k : Kind} : Decoder (Id k) := Id.mk <$> Decoder.nat 32

/-- A list of identifiers. -/
def Id.listDecoder {k : Kind} : Decoder (List (Id k)) := .list Id.decoder

def GradeRange.decoder : Decoder GradeRange :=
  Record.decoder <| GradeRange.mk
    <$> .required "min" (.nat 32)
    <*> .required "max" (.nat 32)

def PeriodRecord.decoder : Decoder PeriodRecord :=
  Record.decoder <| PeriodRecord.mk
    <$> .required "id" Id.decoder
    <*> .optional "description" .string ""
    <*> .optional "is_lunch" .bool false
    <*> .optional "grades" (.option GradeRange.decoder) none
    <*> .optional "attendance_ratio" .float 1.0

def BlockRecord.decoder : Decoder BlockRecord :=
  Record.decoder <| BlockRecord.mk
    <$> .required "id" Id.decoder
    <*> .optional "description" .string ""
    <*> .required "periods" (.list PeriodRecord.decoder)

def Room.decoder : Decoder Room :=
  Record.decoder <| Room.mk
    <$> .required "id" Id.decoder
    <*> .optional "name" .string ""
    <*> .required "capacity" (.nat 32)
    <*> .optional "available_periods" Id.listDecoder []
    <*> .optional "properties" Id.listDecoder []
    <*> .optional "resources" Id.listDecoder []
    <*> .optional "building" (.option Id.decoder) none

def Building.decoder : Decoder Building :=
  Record.decoder <| Building.mk
    <$> .required "id" Id.decoder
    <*> .optional "name" .string ""

def RoomProperty.decoder : Decoder RoomProperty :=
  Record.decoder <| RoomProperty.mk
    <$> .required "id" Id.decoder
    <*> .optional "description" .string ""
    <*> .optional "binding" .bool false

def Resource.decoder : Decoder Resource :=
  Record.decoder <| Resource.mk
    <$> .required "id" Id.decoder
    <*> .optional "description" .string ""
    <*> .optional "binding" .bool false
    <*> .optional "floating_count" (.nat 32) 0

def Teacher.decoder : Decoder Teacher :=
  Record.decoder <| Teacher.mk
    <$> .required "id" Id.decoder
    <*> .optional "name" .string ""
    <*> .optional "available_periods" Id.listDecoder []

def TeacherGroup.decoder : Decoder TeacherGroup :=
  Record.decoder <| TeacherGroup.mk
    <$> .required "id" Id.decoder
    <*> .optional "name" .string ""
    <*> .required "teachers" Id.listDecoder
    <*> .required "cap" (.nat 32)

def Course.decoder : Decoder Course :=
  Record.decoder <| Course.mk
    <$> .required "id" Id.decoder
    <*> .optional "title" .string ""
    <*> .required "estimated_size" (.nat 32)
    <*> .required "max_size" (.nat 32)
    <*> .required "teachers" Id.listDecoder
    <*> .optional "required_properties" Id.listDecoder []
    <*> .optional "required_resources" Id.listDecoder []
    <*> .optional "prerequisites" Id.listDecoder []
    <*> .optional "grades" (.option GradeRange.decoder) none
    <*> .optional "preferred_rooms" Id.listDecoder []

def Section.decoder : Decoder Section :=
  Record.decoder <| Section.mk
    <$> .required "id" Id.decoder
    <*> .required "course" Id.decoder
    <*> .required "period_length" (.nat 32)

/-- The description of a program. -/
def ProgramRecord.decoder : Decoder ProgramRecord :=
  Record.decoder <| ProgramRecord.mk
    <$> .optional "name" .string ""
    <*> .optional "teachers" (.list Teacher.decoder) []
    <*> .optional "rooms" (.list Room.decoder) []
    <*> .optional "buildings" (.list Building.decoder) []
    <*> .optional "courses" (.list Course.decoder) []
    <*> .optional "sections" (.list Section.decoder) []
    <*> .optional "time_blocks" (.list BlockRecord.decoder) []
    <*> .optional "properties" (.list RoomProperty.decoder) []
    <*> .optional "resources" (.list Resource.decoder) []
    <*> .optional "teacher_groups" (.list TeacherGroup.decoder) []

end Timetable
