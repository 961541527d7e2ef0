import JobFinder.Theory.Run
import JobFinder.Theory.Pool
import JobFinder.Database.PostedJobs
import JobFinder.Model.DataHandeler
import JobFinder.Theory.Loads
import JobFinder.Controller.PostedJobs
import JobFinder.Controller.EditJob
import JobFinder.Controller.Explore
import JobFinder.Controller.JobListing
import JobFinder.Controller.ShowApplicants
import JobFinder.Controller.ApplicantCells
import JobFinder.Controller.SignUp
import JobFinder.Controller.SignIn
import JobFinder.Controller.CreateJob
import JobFinder.Controller.PostedRecord
import JobFinder.Controller.LocationUrl
import JobFinder.Model.JsonData
import JobFinder.Clients.Callbacks
import JobFinder.Clients.Completeness
import JobFinder.Controller.Readers
import JobFinder.Clients.Publishing
import JobFinder.Clients.Applications
import JobFinder.Clients.Declining
import JobFinder.Clients.DeclinedRows
import JobFinder.Clients.Together
import JobFinder.Clients.WholeRecords
import JobFinder.Clients.KeptApplications
import JobFinder.Clients.KeptJobs
import JobFinder.Controller.Attribution
import JobFinder.Controller.Identity
import JobFinder.Controller.JobCells
import JobFinder.Controller.OpenedListings
import JobFinder.Clients.Shown
import JobFinder.Clients.Network
import JobFinder.Clients.NetworkBoard
import JobFinder.Clients.NetworkRest
import JobFinder.Controller.Sending
import JobFinder.Controller.Roles
import JobFinder.Controller.Profiles
import JobFinder.Controller.Ending
import JobFinder.Clients.World
